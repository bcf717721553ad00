import Literate.Text.Basic

/-!
# Bytes of a text

A text travels as its UTF-8 bytes. Decoding accepts well-formed UTF-8 only and undoes encoding.
-/

namespace Literate

/-- A string of bytes. -/
abbrev Bytes := List UInt8

/-- The UTF-8 bytes of a text. -/
def Text.toBytes (t : Text) : Bytes :=
  t.flatMap String.utf8EncodeChar

/-- The text whose UTF-8 bytes these are, if they are well-formed. -/
def Bytes.toText? (bytes : Bytes) : Option Text :=
  (ByteArray.utf8Decode? ⟨bytes.toArray⟩).map Array.toList

@[simp] theorem Text.toBytes_nil : Text.toBytes [] = [] := rfl

@[simp] theorem Text.toBytes_append (s t : Text) :
    Text.toBytes (s ++ t) = Text.toBytes s ++ Text.toBytes t := by
  simp [Text.toBytes]

@[simp] theorem Text.toBytes_cons (c : Char) (t : Text) :
    Text.toBytes (c :: t) = String.utf8EncodeChar c ++ Text.toBytes t := by
  simp [Text.toBytes]

/-- Decoding undoes encoding. -/
@[simp] theorem Bytes.toText?_toBytes (t : Text) : Bytes.toText? t.toBytes = some t := by
  have h : (⟨(Text.toBytes t).toArray⟩ : ByteArray) = t.utf8Encode := by
    apply ByteArray.ext
    simp [Text.toBytes, List.utf8Encode]
  simp [Bytes.toText?, h]

end Literate
