namespace RoomCast

/-- A character that has begun: the bits so far, how many bytes are missing, and the range that the
next one has to lie in. -/
structure BegunCharacter where
  value : Nat
  missing : Nat
  least : Nat
  greatest : Nat
deriving DecidableEq, Repr

inductive FirstByte where
  | whole (c : Char)
  | begin (b : BegunCharacter)
  | invalid
deriving DecidableEq, Repr

/-- Classifies a first byte. The ranges of the second one exclude overlong forms, surrogates and
values beyond the last code point. -/
def FirstByte.ofNat (n : Nat) : FirstByte :=
  if n < 0x80 then .whole (Char.ofNat n)
  else if n < 0xC2 then .invalid
  else if n < 0xE0 then .begin ⟨n - 0xC0, 1, 0x80, 0xBF⟩
  else if n = 0xE0 then .begin ⟨0, 2, 0xA0, 0xBF⟩
  else if n = 0xED then .begin ⟨0xD, 2, 0x80, 0x9F⟩
  else if n < 0xF0 then .begin ⟨n - 0xE0, 2, 0x80, 0xBF⟩
  else if n = 0xF0 then .begin ⟨0, 3, 0x90, 0xBF⟩
  else if n < 0xF4 then .begin ⟨n - 0xF0, 3, 0x80, 0xBF⟩
  else if n = 0xF4 then .begin ⟨4, 3, 0x80, 0x8F⟩
  else .invalid

def replacementCharacter : Char := '\uFFFD'

def lossyCharacters : Option BegunCharacter → List UInt8 → List Char
  | none, [] => []
  | some _, [] => [replacementCharacter]
  | none, b :: bs =>
    match FirstByte.ofNat b.toNat with
    | .whole c => c :: lossyCharacters none bs
    | .begin p => lossyCharacters (some p) bs
    | .invalid => replacementCharacter :: lossyCharacters none bs
  | some p, b :: bs =>
    if p.least ≤ b.toNat ∧ b.toNat ≤ p.greatest then
      let value := p.value * 0x40 + (b.toNat - 0x80)
      if p.missing ≤ 1 then Char.ofNat value :: lossyCharacters none bs
      else lossyCharacters (some ⟨value, p.missing - 1, 0x80, 0xBF⟩) bs
    else
      replacementCharacter ::
        match FirstByte.ofNat b.toNat with
        | .whole c => c :: lossyCharacters none bs
        | .begin p => lossyCharacters (some p) bs
        | .invalid => replacementCharacter :: lossyCharacters none bs

def lossyText (bytes : List UInt8) : String := String.ofList (lossyCharacters none bytes)

end RoomCast
