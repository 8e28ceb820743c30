/-
# DevMode.Log.Scanner -- lines from a stream of bytes

Bytes come in segments, cut anywhere.  A `Scanner` holds the bytes of the line it is
in and the segments it has not looked at.  `Scanner.next` reads up to the next newline;
it refuses a line whose length is not accepted, and where the segments give out before a
newline it waits with what it has.
-/
import DevMode.Text.Utf8
import DevMode.Total

namespace DevMode

set_option autoImplicit false

/-! ## Lines of bytes -/

def newline? (bytes : ByteArray) : Option Nat := bytes.data.findIdx? (· = 10)

/-- A line without one carriage return at its end. -/
def withoutReturn (line : ByteArray) : ByteArray :=
  if line.data.back? = some 13 then line.extract 0 (line.size - 1) else line

def lineText (line : ByteArray) : String := Text.decodeLossy (withoutReturn line)

/-- The bytes in segments of at most `size + 1`. -/
def segmentsFrom (size : Nat) : Nat → ByteArray → List ByteArray
  | 0, _ => []
  | fuel + 1, bytes =>
    if bytes.size ≤ size + 1 then (if bytes.isEmpty then [] else [bytes])
    else bytes.extract 0 (size + 1) :: segmentsFrom size fuel (bytes.extract (size + 1) bytes.size)

/-- The bytes in segments of `size`, the last one shorter. -/
def segments (size : Nat) (bytes : ByteArray) : List ByteArray :=
  segmentsFrom (size - 1) bytes.size bytes

/-! ## The scanner -/

/-- The state between two readings: the bytes read of an unfinished line, and the
segments to come, none of them empty. -/
structure Scanner where
  part : ByteArray
  source : List ByteArray

/-- What a reading comes to: a line, a line that is too long, or no newline yet. -/
inductive Scan where
  | line (bytes : ByteArray)
  | overlong
  | starved

namespace Scanner

/-- The longest line of a log, in bytes: 20 MiB. -/
def defaultLimit : Nat := 20 * 1024 * 1024

def upTo (limit : Nat) : Nat → Bool := fun n => n ≤ limit

def anyLength : Nat → Bool := fun _ => true

def segmentSize : Nat := 4096

def overlongMessage (limit : Nat) : String := "line exceeds " ++ toString limit ++ " bytes"

/-- The scanner before the first byte. -/
def ofSegments (source : List ByteArray) : Scanner := ⟨ByteArray.empty, source⟩

/-- The segments with what is left of their first one. -/
def putBack (rest : ByteArray) (source : List ByteArray) : List ByteArray :=
  if rest.isEmpty then source else rest :: source

/-- Reads on from the bytes of an unfinished line.  After a line that is too long the
segment that made it so is still to come. -/
def readFrom (fits : Nat → Bool) (part : ByteArray) : List ByteArray → Scan × Scanner
  | [] => (.starved, ⟨part, []⟩)
  | s :: source =>
    match newline? s with
    | some i =>
      if fits (part.size + i) then
        (.line (part ++ s.extract 0 i), ofSegments (putBack (s.extract (i + 1) s.size) source))
      else (.overlong, ofSegments (s :: source))
    | none =>
      if fits (part.size + s.size) then readFrom fits (part ++ s) source
      else (.overlong, ofSegments (s :: source))

/-- Reads up to the next newline. -/
def next (fits : Nat → Bool) (s : Scanner) : Scan × Scanner := readFrom fits s.part s.source

/-- The line in front of the end of the stream, if there is one. -/
def last? (s : Scanner) : Option ByteArray := if s.part.isEmpty then none else some s.part

/-- How many readings can still yield a line: each takes a byte. -/
def weight (s : Scanner) : Nat := total (s.source.map ByteArray.size) + s.source.length

theorem weight_putBack_lt {s : ByteArray} {i : Nat} {source : List ByteArray} :
    (ofSegments (putBack (s.extract (i + 1) s.size) source)).weight <
      (ofSegments (s :: source)).weight := by
  simp only [putBack]
  split
  · simp [weight, ofSegments]
    omega
  · rename_i h
    have hs : (s.extract (i + 1) s.size).size ≠ 0 := by
      simpa [ByteArray.isEmpty] using h
    simp only [ByteArray.size_extract, Nat.min_self] at hs
    simp only [weight, ofSegments, List.map_cons, total_cons, List.length_cons,
      ByteArray.size_extract, Nat.min_self]
    omega

theorem weight_readFrom_lt {fits : Nat → Bool} {part line : ByteArray} {source : List ByteArray}
    (h : (readFrom fits part source).1 = .line line) :
    (readFrom fits part source).2.weight < (ofSegments source).weight := by
  induction source generalizing part with
  | nil => simp [readFrom] at h
  | cons s source ih =>
    simp only [readFrom] at h ⊢
    split
    · rename_i i hi
      simp only [hi] at h
      split
      · exact weight_putBack_lt
      · rename_i hl; simp [hl] at h
    · rename_i hi
      simp only [hi] at h
      split
      · rename_i hl
        simp only [hl, if_true] at h
        have := ih h
        simp only [weight, ofSegments, List.map_cons, total_cons, List.length_cons] at this ⊢
        omega
      · rename_i hl; simp [hl] at h

theorem weight_next_lt {fits : Nat → Bool} {s : Scanner} {line : ByteArray}
    (h : (s.next fits).1 = .line line) : (s.next fits).2.weight < s.weight :=
  weight_readFrom_lt h

/-- All lines that can be read now, whether a line was too long, and the scanner behind
them. -/
def drain (fits : Nat → Bool) (s : Scanner) : List ByteArray × Bool × Scanner :=
  match _h : (s.next fits).1 with
  | .line line =>
    let rest := (s.next fits).2.drain fits
    (line :: rest.1, rest.2)
  | .overlong => ([], true, (s.next fits).2)
  | .starved => ([], false, (s.next fits).2)
termination_by s.weight
decreasing_by exact weight_next_lt ‹_›

/-- The lines of a whole stream, and whether one was too long, which ends the reading. -/
def lines (fits : Nat → Bool) (source : List ByteArray) : List ByteArray × Bool :=
  match (ofSegments source).drain fits with
  | (lines, true, _) => (lines, true)
  | (lines, false, s) => (lines ++ s.last?.toList, false)

/-! ## Line by line -/

/-- What asking a whole stream for its next line comes to: the text of the line, that there is
none, or why it cannot be had. -/
inductive Reading where
  | line (text : String)
  | stop
  | failed (message : String)
  deriving DecidableEq, Repr

/-- The next line of a stream that ends with its last segment. -/
def nextLine (limit : Nat) (s : Scanner) : Reading × Scanner :=
  match s.next (upTo limit) with
  | (.line bytes, s) => (.line (lineText bytes), s)
  | (.overlong, s) => (.failed (overlongMessage limit), s)
  | (.starved, s) =>
    match s.last? with
    | some bytes => (.line (lineText bytes), ofSegments [])
    | none => (.stop, s)

/-- What asking for a line comes to, time after time. -/
def readings (limit : Nat) : Nat → Scanner → List Reading
  | 0, _ => []
  | n + 1, s => (s.nextLine limit).1 :: readings limit n (s.nextLine limit).2

end Scanner

end DevMode
