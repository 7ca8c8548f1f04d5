/-!
# UTF-8

Reading bytes as text, with the place and the length of the first sequence that is refused.
A refused sequence is either *invalid* (it is as long as the longest part that could still
have begun a character, at least one byte) or *incomplete* (the bytes end too early).
-/

namespace Testbed.Text

/-- The first refused sequence of a byte string: where it starts and, unless the bytes end
    inside it, how many bytes of it are wrong. -/
structure Utf8Fault where
  index : Nat
  length : Option Nat
deriving DecidableEq, Repr

/-- The wording of a fault. -/
def Utf8Fault.message (f : Utf8Fault) : String :=
  match f.length with
  | some n => s!"invalid utf-8 sequence of {n} bytes from index {f.index}"
  | none => s!"incomplete utf-8 byte sequence from index {f.index}"

/-! ## §1 Lead and continuation bytes -/

/-- A continuation byte carries six bits. -/
def isContinuation (b : UInt8) : Bool :=
  0x80 ≤ b.toNat && b.toNat ≤ 0xBF

/-- What a lead byte says: the bits it carries and the range of the byte after it. The ranges
    leave out the overlong forms, the surrogates and what lies above U+10FFFF. `extra` counts
    the bytes after that second one. -/
structure Lead where
  bits : Nat
  low : Nat
  high : Nat
  extra : Nat

/-- The lead bytes of the sequences of two to four bytes. -/
def Lead.of? (b : UInt8) : Option Lead :=
  let n := b.toNat
  if 0xC2 ≤ n ∧ n ≤ 0xDF then some ⟨n - 0xC0, 0x80, 0xBF, 0⟩
  else if n = 0xE0 then some ⟨0, 0xA0, 0xBF, 1⟩
  else if n = 0xED then some ⟨0xD, 0x80, 0x9F, 1⟩
  else if 0xE1 ≤ n ∧ n ≤ 0xEF then some ⟨n - 0xE0, 0x80, 0xBF, 1⟩
  else if n = 0xF0 then some ⟨0, 0x90, 0xBF, 2⟩
  else if 0xF1 ≤ n ∧ n ≤ 0xF3 then some ⟨n - 0xF0, 0x80, 0xBF, 2⟩
  else if n = 0xF4 then some ⟨4, 0x80, 0x8F, 2⟩
  else none

/-! ## §2 Reading -/

/-- Reads `bytes`, the first of which stands at `index`. -/
def decodeFrom (index : Nat) : List UInt8 → Except Utf8Fault (List Char)
  | [] => .ok []
  | b :: rest =>
    if b.toNat < 0x80 then (Char.ofNat b.toNat :: ·) <$> decodeFrom (index + 1) rest
    else match Lead.of? b with
      | none => .error ⟨index, some 1⟩
      | some lead => match rest with
        | [] => .error ⟨index, none⟩
        | b₂ :: rest₂ =>
          if b₂.toNat < lead.low ∨ lead.high < b₂.toNat then .error ⟨index, some 1⟩
          else
            let v₂ := lead.bits * 64 + (b₂.toNat - 0x80)
            match lead.extra with
            | 0 => (Char.ofNat v₂ :: ·) <$> decodeFrom (index + 2) rest₂
            | more + 1 => match rest₂ with
              | [] => .error ⟨index, none⟩
              | b₃ :: rest₃ =>
                if !isContinuation b₃ then .error ⟨index, some 2⟩
                else
                  let v₃ := v₂ * 64 + (b₃.toNat - 0x80)
                  match more with
                  | 0 => (Char.ofNat v₃ :: ·) <$> decodeFrom (index + 3) rest₃
                  | _ + 1 => match rest₃ with
                    | [] => .error ⟨index, none⟩
                    | b₄ :: rest₄ =>
                      if !isContinuation b₄ then .error ⟨index, some 3⟩
                      else
                        (Char.ofNat (v₃ * 64 + (b₄.toNat - 0x80)) :: ·) <$>
                          decodeFrom (index + 4) rest₄

/-- The text that `bytes` encode. -/
def decodeUtf8 (bytes : List UInt8) : Except Utf8Fault (List Char) :=
  decodeFrom 0 bytes

example : decodeUtf8 [0x6e, 0xff] = .error ⟨1, some 1⟩ := rfl
example : decodeUtf8 [0xe2, 0x82] = .error ⟨0, none⟩ := rfl
example : decodeUtf8 [0xe2, 0x82, 0xac] = .ok ['€'] := rfl
example : decodeUtf8 [0xf0, 0x90, 0x80, 0x41] = .error ⟨0, some 3⟩ := rfl

end Testbed.Text
