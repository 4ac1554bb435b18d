import ImageServer.Ecb
import ImageServer.ThumbnailGate
import ImageServer.Utf8

/-! The tokens of `thumbnail.js`: how they are encrypted, and what the gate makes of them. -/

namespace ImageServer.ThumbnailGate

/-- The block cipher under the key that is made of a password, and base64. -/
structure Crypto where
  aes : Bytes → Equiv.Perm Ecb.Block
  toBase64 : Bytes → Text
  ofBase64 : Text → Bytes

namespace Crypto

def aesEncrypt (crypto : Crypto) (data : Text) (secretKey : Bytes) : Text :=
  crypto.toBase64 (Ecb.encrypt (crypto.aes secretKey) (Utf8.encode data))

/-- What `update` and `final` of the decipher yield together. -/
def decipher (crypto : Crypto) (data : Text) (secretKey : Bytes) : Except JavaScript.Error Text :=
  match Ecb.decrypt (crypto.aes secretKey) (crypto.ofBase64 data) with
  | some plain => .ok (Utf8.decode plain)
  | none => .error .type

def outside (crypto : Crypto) (parse : Bytes → Except JavaScript.Error Url) : Outside := ⟨parse, crypto.decipher⟩

end Crypto

/-- A file and a time in milliseconds to write into a token. A file with a bar would make too
many fields. -/
structure Issue where
  fileId : Text
  time : Nat
  plain : '|' ∉ fileId

namespace Issue

def timeStr (issue : Issue) : Text := Nat.toDigits 10 issue.time

def data (issue : Issue) : Text := issue.fileId ++ '|' :: issue.timeStr

def token (issue : Issue) (crypto : Crypto) : Text := crypto.aesEncrypt issue.data password

end Issue

/-- Base64 reads back the ciphertexts that were issued. -/
def Readable (crypto : Crypto) (issued : Set Issue) : Prop :=
  ∀ issue ∈ issued, crypto.ofBase64 (issue.token crypto) = Ecb.encrypt (crypto.aes password) (Utf8.encode issue.data)

/-- Every block of the token is a block of a token that was issued. -/
def Recombined (crypto : Crypto) (issued : Set Issue) (token : Text) : Prop :=
  ∃ blocks, crypto.ofBase64 token = Ecb.flatten blocks ∧ ∀ block ∈ blocks, ∃ issue ∈ issued,
    ∃ own, crypto.ofBase64 (issue.token crypto) = Ecb.flatten own ∧ block ∈ own

end ImageServer.ThumbnailGate
