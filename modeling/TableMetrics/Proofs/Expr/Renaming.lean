import TableMetrics.Proofs.Expr.Context

/-! Names of functions. A name matters for the function that it denotes, and for nothing else but the messages: where
    each call has another name of its function, an expression comes to the same at every row and without one. -/

namespace TableMetrics
namespace Expr

/-- The expressions are alike but for the names in their calls, and each name denotes the function that the name in its
    place denotes, or both denote none. -/
inductive SameFunctions : Expr → Expr → Prop where
  | number (n : Number) : SameFunctions (.number n) (.number n)
  | text (s : String) : SameFunctions (.text s) (.text s)
  | null : SameFunctions .null .null
  | column (name : String) : SameFunctions (.column name) (.column name)
  | call {f g : String} (hname : Function.ofName? f = Function.ofName? g) (args : List (Expr × Expr))
    (h : ∀ x ∈ args, SameFunctions x.1 x.2) :
    SameFunctions (.call f (args.map Prod.fst)) (.call g (args.map Prod.snd))
  | arith (op : String) {l l' r r' : Expr} (hl : SameFunctions l l') (hr : SameFunctions r r') :
    SameFunctions (.arith op l r) (.arith op l' r')
  | compare (op : String) {l l' r r' : Expr} (hl : SameFunctions l l') (hr : SameFunctions r r') :
    SameFunctions (.compare op l r) (.compare op l' r')

/-- Lists of the sides of pairs are related member by member if each pair is. -/
theorem forall₂_pairs {R : Expr → Expr → Prop} {pairs : List (Expr × Expr)} (h : ∀ x ∈ pairs, R x.1 x.2) :
    List.Forall₂ R (pairs.map Prod.fst) (pairs.map Prod.snd) :=
  List.forall₂_map_left_iff.mpr (List.forall₂_map_right_iff.mpr (List.forall₂_same.mpr h))

namespace SameFunctions
variable {e e' : Expr}

theorem sameColumn (h : SameFunctions e e') : SameColumn e e' := by
  cases h with
  | column => exact .refl _
  | _ => exact fun name => iff_of_false (fun heq => nomatch heq) (fun heq => nomatch heq)

theorem sameValue (h : SameFunctions e e') (d : Dataset) : SameValue d e e' := by
  induction h with
  | call hname args h ih =>
    have hcolumn : List.Forall₂ SameColumn (args.map Prod.fst) (args.map Prod.snd) :=
      forall₂_pairs fun x hx => (h x hx).sameColumn
    exact .call hname (forall₂_pairs ih) (Or.inr hcolumn)
  | arith op _ _ ihl ihr => exact ihl.arith ihr op
  | compare op _ _ ihl ihr => exact ihl.compare ihr op
  | _ => exact .refl _

end SameFunctions

end Expr
end TableMetrics
