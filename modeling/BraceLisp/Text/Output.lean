import BraceLisp.Text.Utf8

/-!
# Output

What a program has printed so far. It is kept with the last byte first, so that printing a text takes time for
that text alone. Two outputs are the same just when their texts are.
-/

namespace BraceLisp

/-- What has been printed, last byte first. -/
structure Output where
  reversed : Bytes
  deriving DecidableEq, Repr

namespace Output

def empty : Output := ⟨[]⟩

instance : Inhabited Output := ⟨empty⟩

def add (output : Output) (s : Bytes) : Output :=
  ⟨s.reverseAux output.reversed⟩

def text (output : Output) : Bytes :=
  output.reversed.reverse

/-- At first there is no text. -/
@[simp]
theorem text_empty : empty.text = [] := rfl

/-- What is printed comes at the end of the text. -/
@[simp]
theorem text_add (output : Output) (s : Bytes) : (output.add s).text = output.text ++ s := by
  simp [add, text, List.reverseAux_eq]

/-- Outputs with the same text are the same. -/
@[ext]
theorem ext_text {a b : Output} (h : a.text = b.text) : a = b := by
  cases a
  cases b
  simpa [text] using h

end Output

end BraceLisp
