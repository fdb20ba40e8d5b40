/-!
# Attributes

What the derives read of `syn`'s attributes; the options inside the parentheses differ from
one derive to the next.
-/

namespace Ironstate

/-- `syn::Meta`: the three shapes of an attribute. -/
inductive Meta (Opt : Type u) where
  | path
  | list (options : List Opt)
  | nameValue

/-- `syn::Attribute`. -/
structure Attribute (Opt : Type u) where
  path : String
  «meta» : Meta Opt

end Ironstate
