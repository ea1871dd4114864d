/-!
# Sizes of texts

Texts are lists of characters; limits and positions count the bytes of their
UTF-8 form.
-/

namespace KeyInstall.Text

/-- The number of bytes of a text in UTF-8. -/
def byteSize : List Char → Nat
  | [] => 0
  | c :: rest => c.utf8Size + byteSize rest

@[simp]
theorem byteSize_nil : byteSize [] = 0 := rfl

@[simp]
theorem byteSize_cons (c : Char) (rest : List Char) :
    byteSize (c :: rest) = c.utf8Size + byteSize rest := rfl

@[simp]
theorem byteSize_append (first second : List Char) :
    byteSize (first ++ second) = byteSize first + byteSize second := by
  induction first with
  | nil => simp
  | cons c first ih => rw [List.cons_append, byteSize_cons, byteSize_cons, ih, Nat.add_assoc]

end KeyInstall.Text
