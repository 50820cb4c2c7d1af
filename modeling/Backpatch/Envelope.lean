import Backpatch.Document.Image

/-!
# Stored images

An image is stored as its compact document behind a header of ten bytes: four bytes that tell what
it is, two bytes of version and four bytes with the length of the document.  Bytes behind the
document are not looked at.
-/

namespace Backpatch

/-- The bytes of a text. -/
def utf8 (text : String) : List UInt8 :=
  text.toByteArray.data.toList

namespace Image

/-- The bytes with which a stored image begins. -/
def magic : List UInt8 :=
  [0x53, 0x4C, 0x42, 0x43]

/-- The number of bytes before the document. -/
def headerLength : Nat := 10

/-- The stored form of an image, unless its document is too long for the header. -/
def store (image : Image) : Except CodeError (List UInt8) :=
  let document := utf8 (image.toJson.render .compact)
  if document.length < UInt32.size then
    .ok (magic ++ littleEndian 2 image.version.toNat ++ littleEndian 4 document.length ++ document)
  else
    .error .serialization

/-- The image of a stored form. -/
def load (bytes : List UInt8) : Except CodeError Image :=
  if bytes.length < headerLength then
    .error (.malformed .tooShort)
  else if bytes.take 4 ≠ magic then
    .error .invalidMagic
  else
    let version := UInt16.ofNat (ofLittleEndian ((bytes.drop 4).take 2))
    if version ≠ currentVersion then
      .error (.unsupportedVersion version)
    else
      let length := ofLittleEndian ((bytes.drop 6).take 4)
      if bytes.length < headerLength + length then
        .error (.malformed .truncatedPayload)
      else
        Image.parse ((bytes.drop headerLength).take length)

end Image

end Backpatch
