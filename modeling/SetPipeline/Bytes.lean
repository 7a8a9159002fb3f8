/-! Byte strings, ordered byte by byte, and their UTF-8 texts. -/
namespace SetPipeline

abbrev Bytes := List UInt8

namespace Bytes

def ofText (s : String) : Bytes := s.toUTF8.data.toList

def toText? (b : Bytes) : Option String := String.fromUTF8? ⟨b.toArray⟩

@[simp] theorem toText?_ofText (s : String) : toText? (ofText s) = some s := by
  have h : (⟨(ofText s).toArray⟩ : ByteArray) = s.toByteArray := rfl
  unfold toText?
  rw [h, String.fromUTF8?, dif_pos s.isValidUTF8]
  rfl

end Bytes
end SetPipeline
