import Buyback.Codec.Escape
import Mathlib

/-!
# Texts

What the crate takes from the standard library to print texts and to store them: the
debug text of a string, as errors show it, and the UTF-8 bytes.  Which characters a
debug text shows as code points, besides those with a short escape, is read from a
table of Unicode, and the text of a failed integer conversion has changed between the
versions of the library, so both are parameters.
-/

namespace Buyback

/-- The texts of the standard library that depend on its version. -/
class StdTexts where
  /-- The characters that a debug text shows as code points. -/
  hidden : Char → Bool
  /-- The text of a `TryFromIntError`. -/
  outOfRange : String

/-- The debug text of a string. -/
def debugStr [StdTexts] (s : String) : String :=
  String.ofList (Escape.quote StdTexts.hidden s.toList)

/-- The UTF-8 bytes of a text. -/
def utf8 (s : String) : List UInt8 := s.toByteArray.data.toList

/-- `String::from_utf8`. -/
def fromUtf8 (bytes : List UInt8) : Option String := String.fromUTF8? ⟨bytes.toArray⟩

variable {s t : String}

theorem debugStr_inj [StdTexts] (h : debugStr s = debugStr t) : s = t :=
  String.toList_injective (Escape.quote_inj (String.ofList_injective h))

theorem utf8_inj (h : utf8 s = utf8 t) : s = t := by
  refine String.toByteArray_inj.mp (ByteArray.ext ?_)
  exact Array.toList_inj.mp h

@[simp] theorem fromUtf8_utf8 (s : String) : fromUtf8 (utf8 s) = some s := by
  have hbytes : (⟨(utf8 s).toArray⟩ : ByteArray) = s.toByteArray := rfl
  rw [fromUtf8, hbytes, String.fromUTF8?, dif_pos s.isValidUTF8]
  rfl

end Buyback
