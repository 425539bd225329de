import Namebridge.Text.Cut

/-!
# Class names

A binary class name has its package before the last `/` and its outer classes before the last `$`
after that.
-/

namespace Namebridge.ClassName

/-- The name by which source code calls the class: without its package and its outer classes. -/
def simple (name : String) : String := Text.afterLast '$' (Text.afterLast '/' name)

example : simple "net/minecraft/Foo$Bar" = "Bar" ∧ simple "net/minecraft/Foo" = "Foo"
    ∧ simple "Foo" = "Foo" ∧ simple "a$b/c" = "c" ∧ simple "a/" = "" := by decide

end Namebridge.ClassName
