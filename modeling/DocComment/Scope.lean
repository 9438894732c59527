/-!
# Parameters in scope

The parameters of a declaration, as far as a comment may ask about them: whether a name is one.
-/

namespace DocComment

abbrev Scope := String → Bool

namespace Scope

def ofNames (names : List String) : Scope := fun name => names.contains name

@[simp] theorem ofNames_iff {names : List String} {name : String} :
    ofNames names name = true ↔ name ∈ names := List.contains_iff_mem

/-- Every name is known. -/
def all : Scope := fun _ => true

end Scope

end DocComment
