/-
# DevMode.Proofs.LogLines -- what is shown of a log does not depend on how it comes

A stream of bytes has lines of its own, `byteLines`: what stands between newlines, and what
stands behind the last one if that is anything.  A `Scanner` gets the stream in segments, and
`lines_upTo` says that it reads the same lines off them, however they are cut, up to the first
that is too long.  So what is shown of a log (`showStream_eq`) is what the entries on the lines
before that one lead to, and then that the log is given up, if there is such a line.

* `Scanner.Reads` says what one reading comes to, by the bytes that were ahead;
  `reads_readFrom` goes through the segments once.
* `Scanner.Drains` says the same of all readings, each of which takes the first line off what
  is ahead (`drains_drain`).
* `Scanner.Answers` says it of one line that is asked for, and `readings_eq` of all that are
  asked for up to the end or the first failure.
-/
import DevMode.Log.Shown
import Mathlib.Data.List.TakeWhile

namespace DevMode

set_option autoImplicit false

/-! ## Lines of bytes -/

/-- The lines of a stream of bytes.  Nothing at all behind the last newline is no line. -/
def byteLines (bytes : List UInt8) : List (List UInt8) :=
  let pieces := Text.pieces 10 bytes
  if pieces.getLast? = some [] then pieces.dropLast else pieces

/-- The text of a line of bytes: one carriage return at its end is dropped, and what is no
UTF-8 is replaced. -/
def byteText (line : List UInt8) : String :=
  Text.decodeLossy ⟨(if line.getLast? = some 13 then line.dropLast else line).toArray⟩

/-- A line, its newline, and the lines behind it. -/
theorem byteLines_append_newline {line : List UInt8} (whole : 10 ∉ line) (rest : List UInt8) :
    byteLines (line ++ 10 :: rest) = line :: byteLines rest := by
  have pieces : Text.pieces 10 (line ++ 10 :: rest) = line :: Text.pieces 10 rest := by
    rw [Text.pieces_append_sep, Text.pieces_of_notMem whole, List.singleton_append]
  obtain ⟨p, ps, behind⟩ := List.exists_cons_of_ne_nil (Text.pieces_ne_nil (10 : UInt8) rest)
  unfold byteLines
  rw [pieces, behind]
  simp only [List.getLast?_cons_cons, List.dropLast_cons_cons]
  split <;> rfl

/-- Without a newline there is one line, or none if there is nothing. -/
theorem byteLines_of_notMem {bytes : List UInt8} (whole : 10 ∉ bytes) :
    byteLines bytes = if bytes = [] then [] else [bytes] := by
  unfold byteLines
  rw [Text.pieces_of_notMem whole]
  by_cases empty : bytes = [] <;> simp [empty]

/-- Bytes without a newline are the front of the first line. -/
theorem exists_byteLines_append {front : List UInt8} (whole : 10 ∉ front) (some_front : front ≠ [])
    (rest : List UInt8) : ∃ line more, byteLines (front ++ rest) = (front ++ line) :: more := by
  by_cases newline : (10 : UInt8) ∈ rest
  · obtain ⟨line, behind, rfl, before⟩ := List.eq_append_cons_of_mem newline
    refine ⟨line, byteLines behind, ?_⟩
    rw [← List.append_assoc, byteLines_append_newline (by simp [whole, before])]
  · refine ⟨rest, [], ?_⟩
    rw [byteLines_of_notMem (by simp [whole, newline]), if_neg (by simp [some_front])]

theorem lineText_eq (line : ByteArray) : lineText line = byteText line.data.toList := by
  unfold lineText byteText withoutReturn
  congr 1
  have last : line.data.back? = line.data.toList.getLast? := by simp
  rw [last]
  split
  · apply ByteArray.ext
    apply Array.ext'
    simp [List.dropLast_eq_take]
  · rfl

/-! ## Newlines in a segment -/

theorem toList_extract_front (s : ByteArray) (i : Nat) :
    (s.extract 0 i).data.toList = s.data.toList.take i := by simp

theorem toList_extract_back (s : ByteArray) (i : Nat) :
    (s.extract i s.size).data.toList = s.data.toList.drop i := by
  have cut : (s.extract i s.size).data.toList = (s.data.toList.drop i).take (s.size - i) := by
    simp [List.extract_eq_take_drop]
  rw [cut]
  exact List.take_of_length_le (by simp)

/-- The first newline cuts a segment in two. -/
theorem newline?_some {s : ByteArray} {i : Nat} (found : newline? s = some i) :
    ∃ front rest, s.data.toList = front ++ 10 :: rest ∧ 10 ∉ front ∧ front.length = i ∧
      (s.extract 0 i).data.toList = front ∧ (s.extract (i + 1) s.size).data.toList = rest := by
  obtain ⟨inside, newline, before⟩ := Array.findIdx?_eq_some_iff_getElem.1 found
  have bound : i < s.data.toList.length := by simpa using inside
  have here : s.data.toList[i] = 10 := by simpa using newline
  refine ⟨s.data.toList.take i, s.data.toList.drop (i + 1), ?_, ?_,
    List.length_take_of_le (Nat.le_of_lt bound), toList_extract_front s i,
    toList_extract_back s (i + 1)⟩
  · rw [← here, ← List.drop_eq_getElem_cons, List.take_append_drop]
  · intro member
    obtain ⟨j, small, same⟩ := List.mem_take_iff_getElem.1 member
    have early : j < i := by omega
    exact before j early (by simpa using same)

theorem newline?_none {s : ByteArray} (found : newline? s = none) : 10 ∉ s.data.toList := by
  intro member
  have other := Array.findIdx?_eq_none_iff.1 found 10 (by simpa using member)
  simp at other

namespace Scanner

/-! ## One reading -/

/-- The bytes of some segments. -/
def bytesOf (source : List ByteArray) : List UInt8 := source.flatMap fun s => s.data.toList

@[simp] theorem bytesOf_nil : bytesOf [] = [] := rfl

@[simp] theorem bytesOf_cons (s : ByteArray) (source : List ByteArray) :
    bytesOf (s :: source) = s.data.toList ++ bytesOf source := rfl

theorem bytesOf_putBack (rest : ByteArray) (source : List ByteArray) :
    bytesOf (putBack rest source) = rest.data.toList ++ bytesOf source := by
  unfold putBack
  split
  · rename_i empty
    have none_left : rest = ByteArray.empty := by
      simpa [ByteArray.isEmpty, ByteArray.size_eq_zero_iff] using empty
    simp [none_left]
  · rfl

/-- The bytes that a scanner has not given yet. -/
def ahead (s : Scanner) : List UInt8 := s.part.data.toList ++ bytesOf s.source

/-- What one reading comes to when some bytes were ahead: it takes off the first line, or that
line is too long, or there is no newline. -/
def Reads (fits : Nat → Bool) (ahead : List UInt8) : Scan × Scanner → Prop
  | (.line line, s) =>
    s.part = ByteArray.empty ∧ ahead = line.data.toList ++ 10 :: s.ahead ∧
      10 ∉ line.data.toList ∧ fits line.size = true
  | (.overlong, _) => ∃ line more, byteLines ahead = line :: more ∧ fits line.length = false
  | (.starved, s) =>
    s.source = [] ∧ s.part.data.toList = ahead ∧ 10 ∉ ahead ∧ fits ahead.length = true

/-- What is shorter than a line that fits, fits. -/
def Lengths (fits : Nat → Bool) : Prop := ∀ m n, m ≤ n → fits n = true → fits m = true

theorem lengths_upTo (limit : Nat) : Lengths (upTo limit) := by
  intro m n le fit
  simp only [upTo, decide_eq_true_eq] at fit ⊢
  omega

theorem lengths_anyLength : Lengths anyLength := fun _ _ _ _ => rfl

/-- Bytes that are already too long for a line make the first line too long. -/
theorem reads_overlong {fits : Nat → Bool} (lengths : Lengths fits) {front : List UInt8}
    (whole : 10 ∉ front) (fine : fits 0 = true) (long : fits front.length = false)
    (rest : List UInt8) (s : Scanner) : Reads fits (front ++ rest) (.overlong, s) := by
  have some_front : front ≠ [] := by
    rintro rfl
    rw [List.length_nil, fine] at long
    cases long
  obtain ⟨line, more, lines⟩ := exists_byteLines_append whole some_front rest
  refine ⟨front ++ line, more, lines, ?_⟩
  rw [List.length_append, Bool.eq_false_iff]
  intro fit
  rw [lengths front.length _ (Nat.le_add_right _ _) fit] at long
  cases long

/-- **A reading goes by the bytes alone**, not by the segments they come in. -/
theorem reads_readFrom {fits : Nat → Bool} (lengths : Lengths fits) (source : List ByteArray) :
    ∀ part : ByteArray, 10 ∉ part.data.toList → fits part.size = true →
      Reads fits (part.data.toList ++ bytesOf source) (readFrom fits part source) := by
  induction source with
  | nil =>
      intro part whole short
      refine ⟨rfl, by simp, by simpa using whole, by simpa using short⟩
  | cons s source ih =>
      intro part whole short
      have fine : fits 0 = true := lengths 0 _ (Nat.zero_le _) short
      simp only [readFrom, bytesOf_cons]
      split
      · rename_i i found
        obtain ⟨front, rest, cut, before, rfl, text, behind⟩ := newline?_some found
        have line : (part ++ s.extract 0 front.length).data.toList = part.data.toList ++ front := by
          rw [ByteArray.data_append, Array.toList_append, text]
        have size : (part.data.toList ++ front).length = part.size + front.length := by simp
        have whole_line : 10 ∉ part.data.toList ++ front := by simp [whole, before]
        split
        · rename_i fit
          refine ⟨rfl, ?_, line ▸ whole_line, ?_⟩
          · rw [line, cut, ahead, ofSegments, bytesOf_putBack, behind]
            simp
          · rwa [← ByteArray.size_data, ← Array.length_toList, line, size]
        · rename_i long
          have too_long : fits (part.data.toList ++ front).length = false := by
            rw [size]
            exact Bool.eq_false_iff.2 long
          rw [cut, List.append_assoc, ← List.append_assoc]
          exact reads_overlong lengths whole_line fine too_long _ _
      · rename_i found
        have whole_part : 10 ∉ (part ++ s).data.toList := by simpa [whole] using newline?_none found
        have bytes : part.data.toList ++ (s.data.toList ++ bytesOf source) =
            (part ++ s).data.toList ++ bytesOf source := by simp
        rw [bytes]
        split
        · rename_i fit
          exact ih (part ++ s) whole_part (by simpa using fit)
        · rename_i long
          have too_long : fits (part ++ s).data.toList.length = false := by simpa using long
          exact reads_overlong lengths whole_part fine too_long _ _

theorem reads_next {fits : Nat → Bool} (lengths : Lengths fits) (s : Scanner)
    (whole : 10 ∉ s.part.data.toList) (short : fits s.part.size = true) :
    Reads fits s.ahead (s.next fits) :=
  reads_readFrom lengths s.source s.part whole short

/-! ## All readings -/

/-- What all readings come to when some bytes were ahead: the lines that fit, up to one that is
too long, or up to what the scanner still holds. -/
def Drains (limit : Nat) (ahead : List UInt8) : List ByteArray × Bool × Scanner → Prop
  | (lines, true, _) => ∃ long more, limit < long.length ∧
      byteLines ahead = lines.map (·.data.toList) ++ long :: more ∧ ∀ l ∈ lines, l.size ≤ limit
  | (lines, false, s) =>
      byteLines ahead = (lines ++ s.last?.toList).map (·.data.toList) ∧
        ∀ l ∈ lines ++ s.last?.toList, l.size ≤ limit

/-- What is held at the end of the stream is its last line. -/
theorem byteLines_part (s : Scanner) (whole : 10 ∉ s.part.data.toList) :
    byteLines s.part.data.toList = s.last?.toList.map (·.data.toList) := by
  rw [byteLines_of_notMem whole, last?]
  by_cases empty : s.part = ByteArray.empty
  · simp only [empty]
    rfl
  · have held : s.part.isEmpty = false := by
      simpa [ByteArray.isEmpty, ByteArray.size_eq_zero_iff] using empty
    have bytes : s.part.data.toList ≠ [] := by
      intro none_held
      exact empty (ByteArray.ext (Array.ext' none_held))
    simp [held, bytes]

/-- A line in front of other readings. -/
theorem Drains.cons {limit : Nat} {line : ByteArray} {ahead : List UInt8}
    {out : List ByteArray × Bool × Scanner} (drains : Drains limit ahead out)
    (whole : 10 ∉ line.data.toList) (short : line.size ≤ limit) :
    Drains limit (line.data.toList ++ 10 :: ahead) (line :: out.1, out.2) := by
  obtain ⟨lines, long | _, s⟩ := out
  · obtain ⟨same, fit⟩ := drains
    refine ⟨?_, List.forall_mem_cons.2 ⟨short, fit⟩⟩
    rw [byteLines_append_newline whole, same]
    rfl
  · obtain ⟨long, more, too_long, same, fit⟩ := drains
    refine ⟨long, more, too_long, ?_, List.forall_mem_cons.2 ⟨short, fit⟩⟩
    rw [byteLines_append_newline whole, same]
    rfl

/-- **All readings together take the lines off the bytes**, up to the first that is too long. -/
theorem drains_drain {limit : Nat} (s : Scanner) (whole : 10 ∉ s.part.data.toList)
    (short : s.part.size ≤ limit) : Drains limit s.ahead (s.drain (upTo limit)) := by
  fun_induction drain (upTo limit) s with
  | case1 s line read rest ih =>
      have reads := reads_next (lengths_upTo limit) s whole (decide_eq_true short)
      rw [← Prod.eta (s.next (upTo limit)), read] at reads
      obtain ⟨fresh, cut, whole_line, short_line⟩ := reads
      rw [cut]
      exact Drains.cons (ih (by simp [fresh]) (by simp [fresh])) whole_line
        (of_decide_eq_true short_line)
  | case2 s read =>
      have reads := reads_next (lengths_upTo limit) s whole (decide_eq_true short)
      rw [← Prod.eta (s.next (upTo limit)), read] at reads
      obtain ⟨long, more, same, too_long⟩ := reads
      exact ⟨long, more, Nat.lt_of_not_le (of_decide_eq_false too_long), same, by simp⟩
  | case3 s read =>
      have reads := reads_next (lengths_upTo limit) s whole (decide_eq_true short)
      rw [← Prod.eta (s.next (upTo limit)), read] at reads
      obtain ⟨-, held, whole_rest, short_rest⟩ := reads
      have fit : s.ahead.length ≤ limit := of_decide_eq_true short_rest
      have last := byteLines_part (s.next (upTo limit)).2 (held ▸ whole_rest)
      refine ⟨held ▸ last, ?_⟩
      intro l member
      simp only [last?, List.nil_append] at member
      split at member
      · simp at member
      · obtain rfl := by simpa using member
        simpa [← held] using fit

/-- **The lines that are read are those of the bytes**, up to the first that is too long. -/
theorem lines_upTo (limit : Nat) (source : List ByteArray) :
    (Scanner.lines (upTo limit) source).1.map (·.data.toList) =
        (byteLines (bytesOf source)).takeWhile (·.length ≤ limit) ∧
      (Scanner.lines (upTo limit) source).2 =
        !(byteLines (bytesOf source)).all (·.length ≤ limit) := by
  have drains : Drains limit (bytesOf source) ((ofSegments source).drain (upTo limit)) :=
    drains_drain (ofSegments source) (by simp [ofSegments]) (by simp [ofSegments])
  have fits_all {lines : List ByteArray} (fit : ∀ l ∈ lines, l.size ≤ limit) :
      ∀ l ∈ lines.map (·.data.toList), decide (l.length ≤ limit) = true := by
    simpa using fit
  unfold Scanner.lines
  split
  · rename_i lines s read
    rw [read] at drains
    obtain ⟨long, more, too_long, same, fit⟩ := drains
    rw [same, List.takeWhile_append_of_pos (fits_all fit)]
    simp [Nat.not_le.2 too_long]
  · rename_i lines s read
    rw [read] at drains
    obtain ⟨same, fit⟩ := drains
    rw [same, List.takeWhile_eq_self_iff.2 (fits_all fit), List.all_eq_true.2 (fits_all fit)]
    exact ⟨rfl, rfl⟩

/-! ## Line by line -/

/-- What asking for a line comes to when some lines were ahead: the first one, or why not. -/
def Answers (limit : Nat) (out : Reading × Scanner) : List (List UInt8) → Prop
  | [] => out.1 = .stop
  | line :: more =>
    if line.length ≤ limit then
      out.1 = .line (byteText line) ∧ out.2.part = ByteArray.empty ∧ byteLines out.2.ahead = more
    else out.1 = .failed (overlongMessage limit)

theorem answers_nextLine (limit : Nat) {s : Scanner} (fresh : s.part = ByteArray.empty) :
    Answers limit (s.nextLine limit) (byteLines s.ahead) := by
  have reads := reads_next (lengths_upTo limit) s (by simp [fresh]) (by simp [fresh, upTo])
  unfold nextLine
  split
  · rename_i bytes s' next
    obtain ⟨fresh', cut, whole, short⟩ := next ▸ reads
    have fit : bytes.data.toList.length ≤ limit := of_decide_eq_true short
    rw [cut, byteLines_append_newline whole]
    exact (if_pos fit).mpr ⟨congrArg _ (lineText_eq bytes), fresh', rfl⟩
  · rename_i s' next
    obtain ⟨long, more, cut, too_long⟩ := next ▸ reads
    rw [cut]
    exact (if_neg (of_decide_eq_false too_long)).mpr rfl
  · -- There is no newline ahead, so the last line is all that is held, or there is none.
    rename_i s' next
    obtain ⟨-, held, whole, short⟩ := next ▸ reads
    have fit : s.ahead.length ≤ limit := of_decide_eq_true short
    have last := byteLines_part s' (held ▸ whole)
    rw [held] at last
    rw [last]
    cases kept : s'.last? with
    | none => rfl
    | some bytes =>
        have all : bytes.data.toList = s.ahead := by
          unfold last? at kept
          split at kept
          · cases kept
          · rw [← Option.some.inj kept, held]
        have short_line : bytes.data.toList.length ≤ limit := all ▸ fit
        exact (if_pos short_line).mpr ⟨congrArg _ (lineText_eq bytes), rfl, rfl⟩

/-- What asking a stream with these lines comes to, up to the first failure or the end. -/
def readingsOf (limit : Nat) (lines : List (List UInt8)) : List Reading :=
  (lines.takeWhile (·.length ≤ limit)).map (fun line => .line (byteText line)) ++
    [if lines.all (·.length ≤ limit) then .stop else .failed (overlongMessage limit)]

/-- **Asking for line after line goes by the bytes ahead**, whatever segments they come in. -/
theorem readings_of_ahead (limit : Nat) {lines : List (List UInt8)} :
    ∀ {s : Scanner}, s.part = ByteArray.empty → byteLines s.ahead = lines →
      s.readings limit (readingsOf limit lines).length = readingsOf limit lines := by
  induction lines with
  | nil =>
      intro s fresh ahead
      have answers : Answers limit (s.nextLine limit) [] := ahead ▸ answers_nextLine limit fresh
      have first : (s.nextLine limit).1 = .stop := answers
      simp [readingsOf, readings, first]
  | cons line more ih =>
      intro s fresh ahead
      have answers : Answers limit (s.nextLine limit) (line :: more) :=
        ahead ▸ answers_nextLine limit fresh
      by_cases short : line.length ≤ limit
      · obtain ⟨first, fresh', behind⟩ := (if_pos short).mp answers
        have cut : readingsOf limit (line :: more) =
            .line (byteText line) :: readingsOf limit more := by
          simp [readingsOf, short]
        rw [cut, List.length_cons, readings, first, ih fresh' behind]
      · have first : (s.nextLine limit).1 = .failed (overlongMessage limit) :=
          (if_neg short).mp answers
        simp [readingsOf, readings, short, first]

/-- **A stream is read line by line the same way however it is cut into segments**: each line that
fits gives its text, and then the end is told, or the first line that is too long.  A carriage
return in front of the newline counts for the length, and is no part of the text. -/
theorem readings_eq (limit : Nat) (source : List ByteArray) :
    let lines := byteLines (bytesOf source)
    let fitting := lines.takeWhile (·.length ≤ limit)
    let last := if ∃ line ∈ lines, limit < line.length then
      Reading.failed ("line exceeds " ++ toString limit ++ " bytes") else .stop
    (ofSegments source).readings limit (fitting.length + 1) =
      fitting.map (fun line => .line (byteText line)) ++ [last] := by
  intro lines fitting last
  have ahead : byteLines (ofSegments source).ahead = lines := by simp [ofSegments, Scanner.ahead, lines]
  have read := readings_of_ahead limit rfl ahead
  have told : readingsOf limit lines = fitting.map (fun line => .line (byteText line)) ++ [last] := by
    have all_fit : lines.all (·.length ≤ limit) = true ↔ ¬ ∃ line ∈ lines, limit < line.length := by
      simp
    simp only [readingsOf, last, all_fit, ite_not]
    rfl
  have count : (readingsOf limit lines).length = fitting.length + 1 := by simp [told]
  rw [← count, read, told]

end Scanner

/-! ## What is shown -/

namespace LogEntry

/-- An entry is shown under a service of interest. -/
theorem route?_key {e : LogEntry} {interest : List String} {l : Line}
    (routed : e.route? interest = some l) : l.key ∈ interest := by
  unfold route? at routed
  split at routed
  · obtain ⟨wanted, same⟩ := Option.ite_none_right_eq_some.1 routed
    obtain rfl := Option.some.inj same
    simpa using wanted
  · split at routed
    · obtain ⟨wanted, same⟩ := Option.ite_none_right_eq_some.1 routed
      obtain rfl := Option.some.inj same
      simpa using wanted
    · simp at routed

/-- What is shown of a line is of interest. -/
theorem show?_key {interest : List String} {line : String} {l : Line}
    (shows : show? interest line = some l) : l.key ∈ interest := by
  obtain ⟨e, -, routes⟩ := Option.bind_eq_some_iff.1 shows
  obtain ⟨l', routed, rfl⟩ := Option.map_eq_some_iff.1 routes
  have known : l'.key ∈ interest := route?_key routed
  exact known

/-- The failure is told in its own words: no line end is behind them. -/
theorem scanFailure_eq (limit : Nat) :
    scanFailure limit = ⟨Console.controlTag, "scan error: " ++ Scanner.overlongMessage limit⟩ := by
  have ending : ("scan error: " ++ Scanner.overlongMessage limit).toList =
      ("scan error: " ++ ("line exceeds " ++ ToString.toString limit ++ " byte")).toList ++ ['s'] := by
    simp [Scanner.overlongMessage]
  exact Console.control_of_concat ending (by decide)

/-- **What is shown of a stream**, however it is cut into segments: what the entries lead to that
are on the lines before the first one that is too long, if their services are of interest, and
then one line about the failure if there is such a line.  A carriage return in front of the
newline counts for the length of a line. -/
theorem showStream_eq (interest : List String) (limit : Nat) (source : List ByteArray) :
    let lines := byteLines (Scanner.bytesOf source)
    let shown := (lines.takeWhile (·.length ≤ limit)).filterMap fun line =>
      (ofString? (byteText line)).bind fun entry => (entry.route? interest).map fun routed =>
        ⟨routed.key, Console.trimMessage routed.message⟩
    let failure : Line := ⟨Console.controlTag, "scan error: " ++ Scanner.overlongMessage limit⟩
    showStream interest limit source =
        shown ++ (if ∃ line ∈ lines, limit < line.length then [failure] else []) ∧
      ∀ l ∈ shown, l.key ∈ interest := by
  intro lines shown failure
  obtain ⟨read, overlong⟩ := Scanner.lines_upTo limit source
  constructor
  · have texts : (Scanner.lines (Scanner.upTo limit) source).1.filterMap
        (fun l => show? interest (lineText l)) = shown := by
      simp only [shown, lines, ← read, List.filterMap_map]
      congr 1
      funext l
      simp [show?, lineText_eq, Console.line]
    have failed : (Scanner.lines (Scanner.upTo limit) source).2 = true ↔
        ∃ line ∈ lines, limit < line.length := by
      simp [overlong, lines]
    simp only [showStream, showAll, texts, scanFailure_eq, failed]
    rfl
  · intro l member
    obtain ⟨line, -, leads⟩ := List.mem_filterMap.1 member
    obtain ⟨entry, -, leads⟩ := Option.bind_eq_some_iff.1 leads
    obtain ⟨routed, found, rfl⟩ := Option.map_eq_some_iff.1 leads
    exact (route?_key found : routed.key ∈ interest)

end LogEntry

end DevMode
