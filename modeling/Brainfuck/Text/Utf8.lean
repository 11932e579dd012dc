/-! Texts as bytes in UTF-8. -/
namespace Brainfuck.Text.Utf8

def encode (text : String) : List UInt8 :=
  text.toUTF8.data.toList

/-- The text that bytes spell, if they spell one. -/
def decode? (bytes : List UInt8) : Option String :=
  String.fromUTF8? bytes.toByteArray

def refusal : String :=
  "stream did not contain valid UTF-8"

/-- A text is read back from its bytes. -/
@[simp] theorem decode?_encode (text : String) : decode? (encode text) = some text := by
  have same : (encode text).toByteArray = text.toUTF8 := by
    apply ByteArray.ext
    simp [encode]
  have valid : text.toUTF8.IsValidUTF8 := text.isValidUTF8
  rw [decode?, same, String.fromUTF8?, dif_pos valid]
  rfl

end Brainfuck.Text.Utf8
