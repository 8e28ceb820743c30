/-
# DevMode.Text.Utf8 -- reading bytes as text

A one-byte-at-a-time reader of UTF-8.  The sequences that the standard allows are
those whose first byte fixes how many bytes follow and in which range the second
one lies (`Reader.begin`).  Where a sequence breaks off, the bytes read of it
become one replacement character and the breaking byte is read afresh
(`Reader.feed`).

`decodeLossy` keeps going over such faults; `decode?` refuses them.
-/

namespace DevMode.Text

set_option autoImplicit false

/-- An unfinished sequence: the bits so far, how many bytes are still missing, and
the range of the next one. -/
structure Sequence where
  bits : Nat
  missing : Nat
  lo : UInt8
  hi : UInt8

/-- The state of the reader: the text so far, the unfinished sequence if there is
one, and whether a byte was refused. -/
structure Reader where
  text : String
  pending : Option Sequence
  faulty : Bool

namespace Reader

def start : Reader := ⟨"", none, false⟩

/-- Writes the replacement character for the bytes of a broken sequence. -/
def refuse (r : Reader) : Reader := ⟨r.text.push '\uFFFD', none, true⟩

/-- Reads the first byte of a sequence. -/
def begin (r : Reader) (b : UInt8) : Reader :=
  if b < 0x80 then { r with text := r.text.push (Char.ofNat b.toNat), pending := none }
  else if b < 0xC2 then r.refuse
  else if b < 0xE0 then { r with pending := some ⟨b.toNat - 0xC0, 1, 0x80, 0xBF⟩ }
  else if b < 0xF0 then
    { r with
      pending := some ⟨b.toNat - 0xE0, 2, if b = 0xE0 then 0xA0 else 0x80,
        if b = 0xED then 0x9F else 0xBF⟩ }
  else if b < 0xF5 then
    { r with
      pending := some ⟨b.toNat - 0xF0, 3, if b = 0xF0 then 0x90 else 0x80,
        if b = 0xF4 then 0x8F else 0xBF⟩ }
  else r.refuse

def feed (r : Reader) (b : UInt8) : Reader :=
  match r.pending with
  | none => r.begin b
  | some p =>
    if p.lo ≤ b && b ≤ p.hi then
      let bits := p.bits * 64 + (b.toNat - 0x80)
      if p.missing = 1 then { r with text := r.text.push (Char.ofNat bits), pending := none }
      else { r with pending := some ⟨bits, p.missing - 1, 0x80, 0xBF⟩ }
    else r.refuse.begin b

/-- Ends the text: a sequence that is still unfinished is broken. -/
def finish (r : Reader) : Reader :=
  match r.pending with
  | none => r
  | some _ => r.refuse

end Reader

/-- The reader after all bytes. -/
def read (bytes : ByteArray) : Reader := (bytes.foldl Reader.feed Reader.start).finish

/-- The text of some bytes, a replacement character in place of each broken sequence. -/
def decodeLossy (bytes : ByteArray) : String := (read bytes).text

/-- The text of some bytes, if they are UTF-8 throughout. -/
def decode? (bytes : ByteArray) : Option String :=
  let r := read bytes
  if r.faulty then none else some r.text

/-! ## Characters as bytes -/

theorem utf8EncodeChar_ascii {c : Char} (ascii : c.toNat < 128) :
    String.utf8EncodeChar c = [c.toNat.toUInt8] := by
  rw [String.utf8EncodeChar.eq_1]
  exact if_pos (Nat.le_of_lt_succ ascii)

/-- No byte of a character is that of an ASCII one, unless it is one. -/
theorem toNat_of_mem_utf8EncodeChar {c : Char} {x : UInt8} (member : x ∈ String.utf8EncodeChar c)
    (ascii : x.toNat < 128) : c.toNat = x.toNat := by
  have solid : c.val.toNat < 1114112 := by
    rcases c.valid with small | ⟨_, large⟩
    · exact Nat.lt_trans small (by decide)
    · exact large
  simp only [String.utf8EncodeChar] at member
  rw [Char.toNat]
  repeat' split at member
  all_goals
    simp only [List.mem_cons, List.not_mem_nil, or_false] at member
    rcases member with rfl | rfl | rfl | rfl
  all_goals
    simp only [UInt8.toNat_ofNat'] at ascii ⊢
    omega

end DevMode.Text
