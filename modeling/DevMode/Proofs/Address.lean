/-
# DevMode.Proofs.Address -- the address of a repository, taken apart

An address is written with a user name and a password in front of the host, both encoded
(`Address.written`).  `Address.parse_text` says which parts are found in it again: the host, the port
and the path as they were put in, but the user name and the password as they are encoded, and with
what the reader encodes on top.

The parts come first, each with what is read from its text: encoded texts (`encode_encode`), domain
names (`Host.parse_plain`), ports (`port?_toDigits`) and paths (`pathAfterHost_plain`).
-/
import DevMode.Registry
import Mathlib

namespace DevMode

set_option autoImplicit false

/-! ## Bytes of ASCII -/

namespace Text

/-- A check goes through the text, not through all characters there are. -/
theorem forall_of_all {p : Char → Prop} [DecidablePred p] {s : List Char}
    (all : s.all (fun c => decide (p c)) = true) : ∀ c ∈ s, p c :=
  fun c member => of_decide_eq_true (List.all_eq_true.1 all c member)

/-- What holds of ASCII is looked up, number by number. -/
theorem forall_ascii {p : Char → Prop} (table : ∀ n < 128, p (Char.ofNat n)) {c : Char}
    (ascii : c.toNat < 128) : p c :=
  Char.ofNat_toNat c ▸ table c.toNat ascii

theorem foldlM_loop_eq {β : Type} (f : β → UInt8 → Id β) (bytes : ByteArray) (left j : Nat)
    (reach : left + j = bytes.size) (out : β) :
    ByteArray.foldlM.loop f bytes bytes.size (Nat.le_refl _) left j out =
      (bytes.data.toList.drop j).foldl f out := by
  induction left generalizing j out with
  | zero =>
      have done : ¬ j < bytes.size := by omega
      have none_left : bytes.data.toList.drop j = [] :=
        List.drop_eq_nil_of_le (by rw [Array.length_toList]; exact Nat.le_of_not_lt done)
      rw [ByteArray.foldlM.loop.eq_def, dif_neg done, none_left]
      rfl
  | succ left ih =>
      have more : j < bytes.size := by omega
      have next : bytes.data.toList.drop j = bytes.get j more :: bytes.data.toList.drop (j + 1) :=
        List.drop_eq_getElem_cons (by rw [Array.length_toList]; exact more)
      rw [ByteArray.foldlM.loop.eq_def, dif_pos more, next, List.foldl_cons]
      exact ih (j + 1) (by omega) _

/-- A text is read byte by byte. -/
theorem read_eq (bytes : List UInt8) :
    read ⟨bytes.toArray⟩ = (bytes.foldl Reader.feed Reader.start).finish := by
  have fold := foldlM_loop_eq Reader.feed ⟨bytes.toArray⟩ bytes.length 0 rfl Reader.start
  rw [read, ByteArray.foldl, ByteArray.foldlM, dif_pos (Nat.le_refl _)]
  exact congrArg Reader.finish fold

theorem feed_ascii {c : Char} (ascii : c.toNat < 128) (text : String) :
    Reader.feed ⟨text, none, false⟩ c.toNat.toUInt8 = ⟨text.push c, none, false⟩ := by
  have whole : c.toNat.toUInt8.toNat = c.toNat := by
    simp only [Nat.toUInt8_eq, UInt8.toNat_ofNat']
    omega
  have below : c.toNat.toUInt8 < 0x80 := by
    rw [UInt8.lt_iff_toNat_lt, whole]
    exact ascii
  simp only [Reader.feed, Reader.begin, if_pos below, whole, Char.ofNat_toNat]

theorem foldl_feed_ascii {s : List Char} (ascii : ∀ c ∈ s, c.toNat < 128) (text : String) :
    (s.flatMap String.utf8EncodeChar).foldl Reader.feed ⟨text, none, false⟩ =
      ⟨text ++ String.ofList s, none, false⟩ := by
  induction s generalizing text with
  | nil => simp
  | cons c s ih =>
      have first := ascii c List.mem_cons_self
      rw [List.flatMap_cons, utf8EncodeChar_ascii first, List.singleton_append, List.foldl_cons,
        feed_ascii first, ih fun d member => ascii d (List.mem_cons_of_mem c member)]
      rw [String.ofList_cons, ← String.append_assoc, String.append_singleton]

theorem decode?_ascii {s : List Char} (ascii : ∀ c ∈ s, c.toNat < 128) :
    decode? ⟨(s.flatMap String.utf8EncodeChar).toArray⟩ = some (String.ofList s) := by
  have all := foldl_feed_ascii ascii ""
  rw [decode?, read_eq, Reader.start, all]
  simp [Reader.finish]

end Text

namespace Url

/-! ## Encoded texts -/

theorem encode_cons (encoded : Char → Bool) (c : Char) (s : List Char) :
    encode encoded (c :: s) = encodeChar encoded c ++ encode encoded s := List.flatMap_cons

theorem encode_of_none {encoded : Char → Bool} {s : List Char}
    (none_in : ∀ c ∈ s, encoded c = false) : encode encoded s = s := by
  induction s with
  | nil => rfl
  | cons c s ih =>
      rw [encode_cons, encodeChar, if_neg (by simp [none_in c List.mem_cons_self]),
        ih fun d member => none_in d (List.mem_cons_of_mem c member)]
      rfl

/-- What stands for a byte is not encoded again. -/
theorem not_encoded_of_mem_percentByte {b : UInt8} {c : Char} (member : c ∈ percentByte b) :
    encodedInUserInfo c = false := by
  have digits : ∀ n < 16, encodedInUserInfo (Nat.digitChar n).toUpper = false := by decide
  have bound : b.toNat < 256 := UInt8.toNat_lt b
  simp only [percentByte, Text.hexPair, List.map_cons, List.map_nil, List.mem_cons,
    List.not_mem_nil, or_false] at member
  rcases member with rfl | rfl | rfl
  · decide
  · exact digits _ (by omega)
  · exact digits _ (by omega)

theorem not_encoded_of_mem_bytes {bytes : List UInt8} :
    ∀ c ∈ bytes.flatMap percentByte, encodedInUserInfo c = false := by
  intro c member
  obtain ⟨b, -, inside⟩ := List.mem_flatMap.1 member
  exact not_encoded_of_mem_percentByte inside

/-- What is encoded in a user name when it is read, with what was encoded when it was written. -/
def encodedTwice (escaped : Char → Bool) (c : Char) : Bool := escaped c || encodedInUserInfo c

/-- **Encoding what is encoded adds only what was left.** -/
theorem encode_encode (escaped : Char → Bool) (s : List Char) :
    encode encodedInUserInfo (encode escaped s) = encode (encodedTwice escaped) s := by
  induction s with
  | nil => rfl
  | cons c s ih =>
      have one : encode encodedInUserInfo (encodeChar escaped c) =
          encodeChar (encodedTwice escaped) c := by
        cases first : escaped c with
        | true =>
            simp only [encodeChar, encodedTwice, first, Bool.true_or, if_true]
            exact encode_of_none not_encoded_of_mem_bytes
        | false =>
            simp only [encodeChar, encodedTwice, first, Bool.false_or, Bool.false_eq_true, if_false]
            exact List.append_nil _
      rw [encode_cons, encode_cons, ← one, ← ih]
      exact List.flatMap_append

theorem length_encode_le (encoded : Char → Bool) (s : List Char) :
    s.length ≤ (encode encoded s).length := by
  induction s with
  | nil => exact Nat.le_refl 0
  | cons c s ih =>
      have some_char : 0 < (encodeChar encoded c).length := by
        unfold encodeChar
        split
        · have solid := String.utf8EncodeChar_ne_nil (c := c)
          rcases bytes : String.utf8EncodeChar c with _ | ⟨b, bs⟩
          · exact absurd bytes solid
          · simp [percentByte]
        · exact Nat.one_pos
      rw [encode_cons, List.length_append, List.length_cons]
      omega

theorem encode_ne_nil {encoded : Char → Bool} {s : List Char} (solid : s ≠ []) :
    encode encoded s ≠ [] := by
  have grown := length_encode_le encoded s
  have some_char := List.length_pos_iff.2 solid
  exact List.length_pos_iff.1 (Nat.lt_of_lt_of_le some_char grown)

/-- Only a text without anything to encode stays as it is. -/
theorem encode_eq_self_iff {encoded : Char → Bool} {s : List Char} :
    encode encoded s = s ↔ ∀ c ∈ s, encoded c = false := by
  refine ⟨fun same => ?_, encode_of_none⟩
  induction s with
  | nil => simp
  | cons c s ih =>
      rw [encode_cons] at same
      cases first : encoded c with
      | true =>
          -- Three characters stand for one byte, so the text has grown.
          exfalso
          have grown := length_encode_le encoded s
          have level := congrArg List.length same
          simp only [encodeChar, first, if_true, List.length_append, List.length_cons] at level
          rcases bytes : String.utf8EncodeChar c with _ | ⟨b, bs⟩
          · exact absurd bytes String.utf8EncodeChar_ne_nil
          · simp only [bytes, List.flatMap_cons, List.length_append, percentByte, Text.hexPair,
              List.length_cons, List.length_map, List.length_nil] at level
            omega
      | false =>
          simp only [encodeChar, first, Bool.false_eq_true, if_false] at same
          have rest := ih (List.cons.inj same).2
          intro d member
          rcases List.mem_cons.1 member with rfl | behind
          · exact first
          · exact rest d behind

/-- Enough is encoded for a user name to be found again: all that is encoded when it is read, but
for `;` and `=`, which end nothing. -/
def Suffices (escaped : Char → Bool) : Prop :=
  ∀ c, encodedInUserInfo c = true → escaped c = true ∨ c = ';' ∨ c = '='

/-- A character that ends no part of an address. -/
def Inner (c : Char) : Prop := ' ' < c ∧ c ∉ ['/', '\\', '?', '#', '@', ':']

theorem Inner.of_not_encoded {c : Char} (left : encodedInUserInfo c = false) : Inner c := by
  constructor
  · have visible : isControl c = false ∧ c ≠ ' ' := by
      simp only [encodedInUserInfo, encodedInPath, Bool.or_eq_false_iff, List.contains_cons,
        beq_eq_false_iff_ne] at left
      exact ⟨left.1.1, left.1.2.1⟩
    obtain ⟨printed, solid⟩ := visible
    have no_space : c.toNat ≠ 32 := by
      intro same
      exact solid (Char.toNat_inj.1 same)
    simp only [isControl, Bool.or_eq_false_iff, decide_eq_false_iff_not] at printed
    rw [Char.lt_def, UInt32.lt_iff_toNat_lt]
    have above : 32 < c.toNat := by omega
    exact above
  · intro member
    simp only [List.mem_cons, List.not_mem_nil, or_false] at member
    rcases member with rfl | rfl | rfl | rfl | rfl | rfl <;> revert left <;> decide

theorem inner_of_mem_encode {escaped : Char → Bool} (enough : Suffices escaped) {s : List Char} :
    ∀ c ∈ encode escaped s, Inner c := by
  intro c member
  obtain ⟨d, -, inside⟩ := List.mem_flatMap.1 member
  unfold encodeChar at inside
  split at inside
  · exact .of_not_encoded (not_encoded_of_mem_bytes c inside)
  · rename_i unescaped
    obtain rfl := List.mem_singleton.1 inside
    cases reader : encodedInUserInfo c with
    | false => exact .of_not_encoded reader
    | true =>
        rcases enough c reader with escape | rfl | rfl
        · exact absurd escape unescaped
        · exact ⟨by decide, by decide⟩
        · exact ⟨by decide, by decide⟩

/-! ## Domain names -/

/-- A domain name in small letters of ASCII: a label behind `xn--` is the Punycode of another one,
and the last label is no number. -/
structure Domain.Plain (host : List Char) : Prop where
  solid : host ≠ []
  ascii : ∀ c ∈ host, c.toNat < 128
  small : ∀ c ∈ host, c.isUpper = false
  allowed : ∀ c ∈ host, Domain.isAllowed c = true
  punycode : ∀ label ∈ Text.pieces '.' host, ∀ code, label = Domain.punycodeLead ++ code →
    Domain.isPunycode code = true
  no_number : Ipv4.endsInNumber host = false

theorem decode_of_notMem {s : List Char} (absent : '%' ∉ s) :
    decode s = s.flatMap String.utf8EncodeChar := by
  induction s with
  | nil => rfl
  | cons c s ih =>
      rw [List.mem_cons, not_or] at absent
      rw [decode.eq_def]
      split
      · contradiction
      · rename_i same
        exact absurd (List.cons.inj same).1.symm absent.1
      · rename_i same
        obtain ⟨rfl, rfl⟩ := List.cons.inj same
        rw [ih absent.2, List.flatMap_cons]

theorem mapM_eq_some_self {α : Type} {f : α → Option α} {l : List α}
    (each : ∀ a ∈ l, f a = some a) : l.mapM f = some l := by
  induction l with
  | nil => rfl
  | cons a l ih =>
      rw [List.mapM_cons, each a List.mem_cons_self,
        ih fun b member => each b (List.mem_cons_of_mem a member)]
      rfl

namespace Domain

theorem small_of_ascii {c : Char} (ascii : c.toNat < 128) (no_capital : c.isUpper = false) :
    Domain.small c = c :=
  Text.forall_ascii (p := fun c => c.isUpper = false → Domain.small c = c) (by decide) ascii
    no_capital

theorem normalize_plain {host : List Char} (plain : Plain host) : normalize host = host := by
  have none_ignored : ∀ c ∈ host, (!isIgnored c) = true := by
    intro c member
    have ascii := plain.ascii c member
    simp only [isIgnored, Bool.not_eq_true', Bool.or_eq_false_iff, decide_eq_false_iff_not]
    omega
  have each : ∀ c ∈ host, Domain.small (narrow c) = c := by
    intro c member
    have ascii := plain.ascii c member
    have narrow_already : narrow c = c := by
      rw [narrow, if_neg (by omega), if_neg (by omega)]
    rw [narrow_already, small_of_ascii ascii (plain.small c member)]
  rw [normalize, List.filter_eq_self.2 none_ignored, List.map_congr_left each, List.map_id']

/-- A plain domain name is written as it is. -/
theorem toAscii?_plain {host : List Char} (plain : Plain host) : toAscii? host = some host := by
  have no_code : '%' ∉ host := by
    intro member
    exact absurd (plain.allowed _ member) (by decide)
  have labels : ∀ label ∈ Text.pieces '.' host, labelToAscii? label = some label := by
    intro label member
    unfold labelToAscii?
    split
    · rename_i code behind
      rw [if_pos (plain.punycode label member code (Text.after?_eq_some_iff.1 behind))]
    · have ascii : label.all (·.toNat < 128) = true := by
        rw [List.all_eq_true]
        intro c inside
        have here : c ∈ Text.glue '.' (Text.pieces '.' host) := Text.subset_glue member inside
        rw [Text.glue_pieces] at here
        exact decide_eq_true (plain.ascii c here)
      rw [if_pos ascii]
  have whole : (Text.pieces '.' host).mapM labelToAscii? = some (Text.pieces '.' host) :=
    mapM_eq_some_self labels
  rw [toAscii?, decode_of_notMem no_code, Text.decode?_ascii plain.ascii]
  simp only [Option.bind_eq_bind, Option.bind_some, String.toList_ofList, normalize_plain plain]
  rw [if_pos (List.all_eq_true.2 plain.allowed), whole]
  simp [Text.glue_pieces]

end Domain

theorem Host.parse_plain {host : List Char} (plain : Domain.Plain host) :
    Host.parse host = .ok (.name host) := by
  unfold Host.parse
  split
  · exact absurd (plain.allowed '[' List.mem_cons_self) (by decide)
  · rw [Domain.toAscii?_plain plain]
    obtain ⟨c, rest, text⟩ := List.exists_cons_of_ne_nil plain.solid
    subst text
    simp [plain.no_number]

/-! ## Ports and paths -/

theorem portOf_toDigits {n : Nat} (bound : n ≤ 65535) : portOf (Nat.toDigits 10 n) = .ok n := by
  have value : (Nat.toDigits 10 n).foldl (fun n c => n * 10 + (c.toNat - 48)) 0 = n := by
    have zero : '0'.toNat = 48 := rfl
    have read := Nat.ofDigitChars_ten_toDigits (n := n)
    rw [Nat.ofDigitChars_eq_foldl] at read
    simpa only [Nat.mul_comm 10, zero] using read
  rw [portOf, value]
  exact if_neg (by omega)

theorem port?_toDigits {scheme : List Char} {n : Nat} (bound : n ≤ 65535)
    (other : defaultPort? scheme ≠ some n) :
    port? scheme (Nat.toDigits 10 n) = .ok (some n, []) := by
  have digits : (Nat.toDigits 10 n).takeWhile Char.isDigit = Nat.toDigits 10 n :=
    List.takeWhile_eq_self_iff.2 fun _ member =>
      Nat.isDigit_of_mem_toDigits (by decide) (by decide) member
  have some_digit : Nat.toDigits 10 n ≠ [] := Nat.toDigits_ne_nil
  simp only [port?, digits, List.drop_length, portOf_toDigits bound]
  simp [some_digit, other, bind, Except.bind, pure, Except.pure]

/-- A character of a plain path. -/
def isPlain (c : Char) : Bool := c.isAlphanum || c = '-' || c = '/'

theorem ascii_of_plain {c : Char} (plain : isPlain c = true) : c.toNat < 128 := by
  simp only [isPlain, Char.isAlphanum, Char.isAlpha, Char.isUpper, Char.isLower, Char.isDigit,
    Bool.or_eq_true, decide_eq_true_eq, Bool.and_eq_true, ge_iff_le,
    UInt32.le_iff_toNat_le] at plain
  rcases plain with (((⟨-, upper⟩ | ⟨-, lower⟩) | ⟨-, digit⟩) | rfl) | rfl
  · exact Nat.lt_of_le_of_lt upper (by decide)
  · exact Nat.lt_of_le_of_lt lower (by decide)
  · exact Nat.lt_of_le_of_lt digit (by decide)
  · decide
  · decide

/-- A plain character is not encoded, nor made small to a dot or to what stands for one. -/
theorem plain_cases {c : Char} (plain : isPlain c = true) :
    (c ≠ '/' → encodedInUserInfo c = false) ∧ encodedInPath c = false ∧
      c.toLower ≠ '.' ∧ c.toLower ≠ '%' :=
  Text.forall_ascii (p := fun c => isPlain c = true →
      (c ≠ '/' → encodedInUserInfo c = false) ∧ encodedInPath c = false ∧
        c.toLower ≠ '.' ∧ c.toLower ≠ '%')
    (by decide) (ascii_of_plain plain) plain

theorem inner_of_plain {c : Char} (plain : isPlain c = true) : Inner c ∨ c = '/' := by
  by_cases slash : c = '/'
  · exact Or.inr slash
  · exact Or.inl (.of_not_encoded ((plain_cases plain).1 slash))

/-- Segments that are no dots are put behind one another. -/
theorem foldl_pathStep {ss : List (List Char)}
    (undotted : ∀ s ∈ ss, isDot s = false ∧ isDotDot s = false) (out : List (List Char)) :
    ss.foldl pathStep out = out ++ ss := by
  induction ss generalizing out with
  | nil => rw [List.append_nil, List.foldl_nil]
  | cons s ss ih =>
      obtain ⟨no_dot, no_dots⟩ := undotted s List.mem_cons_self
      rw [List.foldl_cons, pathStep, no_dot, no_dots,
        ih fun t member => undotted t (List.mem_cons_of_mem s member)]
      simp

section Paths

variable {path : List Char} (plain : ∀ c ∈ path, isPlain c = true)
include plain

theorem plain_of_mem_pieces {s : List Char} (member : s ∈ Text.pieces '/' path) :
    ∀ c ∈ s, isPlain c = true := by
  intro c inside
  have here : c ∈ Text.glue '/' (Text.pieces '/' path) := Text.subset_glue member inside
  rw [Text.glue_pieces] at here
  exact plain c here

theorem segments_plain : segments true path = Text.pieces '/' path := by
  have no_backslash : path.map (fun c => if c = '\\' then '/' else c) = path := by
    refine (List.map_congr_left fun c member => ?_).trans (List.map_id' path)
    refine if_neg ?_
    rintro rfl
    exact absurd (plain _ member) (by decide)
  have each : ∀ s ∈ Text.pieces '/' path, encode encodedInPath s = s := fun s member =>
    encode_of_none fun c inside => (plain_cases (plain_of_mem_pieces plain member c inside)).2.1
  rw [segments, if_pos rfl, no_backslash, List.map_congr_left each, List.map_id']

omit plain in
/-- Small letters do not make a mark of a plain text. -/
theorem contains_asciiLower {marks : List String}
    (marked : ∀ t ∈ marks, t.toList.head? = some '.' ∨ t.toList.head? = some '%') {s : List Char}
    (plain : ∀ c ∈ s, isPlain c = true) :
    marks.contains (String.ofList (Text.asciiLower s)) = false := by
  rw [← Bool.not_eq_true, List.contains_iff_mem]
  intro member
  have first := marked _ member
  rw [String.toList_ofList, Text.asciiLower, List.head?_map] at first
  cases s with
  | nil => simp at first
  | cons c s =>
      obtain ⟨-, -, no_dot, no_percent⟩ := plain_cases (plain c List.mem_cons_self)
      simp [no_dot, no_percent] at first

/-- A plain path stays as it is. -/
theorem pathAfterHost_plain : pathAfterHost true ('/' :: path) = '/' :: path := by
  have undotted : ∀ s ∈ Text.pieces '/' path, isDot s = false ∧ isDotDot s = false :=
    fun s member => ⟨contains_asciiLower (by decide) (plain_of_mem_pieces plain member),
      contains_asciiLower (by decide) (plain_of_mem_pieces plain member)⟩
  have whole := Text.glue_pieces '/' path
  obtain ⟨front, last, pieces⟩ :=
    (List.eq_nil_or_concat (Text.pieces '/' path)).resolve_left (Text.pieces_ne_nil '/' path)
  rw [pieces, List.concat_eq_append] at undotted whole
  have in_front : ∀ s ∈ front, isDot s = false ∧ isDotDot s = false :=
    fun s member => undotted s (List.mem_append_left _ member)
  obtain ⟨no_dot, no_dots⟩ := undotted last (by simp)
  simp only [pathAfterHost, pathFrom, true_or, if_true, segments_plain plain, pieces,
    List.concat_eq_append, List.dropLast_concat, List.getLast?_concat, foldl_pathStep in_front,
    List.nil_append, Option.getD_some, pathEnd, no_dot, no_dots, Bool.false_eq_true, if_false, whole]

end Paths

/-! ## Where the parts end -/

/-- Of a text without blanks all counts. -/
theorem prepare_of_visible {s : List Char} (visible : ∀ c ∈ s, ' ' < c) : prepare s = s := by
  have front : Text.trimStart (· ≤ ' ') s = s := by
    cases s with
    | nil => rfl
    | cons c s =>
        have first := Char.not_le.2 (visible c List.mem_cons_self)
        simp [Text.trimStart, first]
  have back : Text.trimEnd (· ≤ ' ') s = s := by
    rcases List.eq_nil_or_concat s with rfl | ⟨s, c, rfl⟩
    · rfl
    · rw [List.concat_eq_append] at visible ⊢
      have last := Char.not_le.2 (visible c (by simp))
      exact Text.trimEnd_concat (by simp [last]) s
  rw [prepare, front, back, List.filter_eq_self]
  intro c member
  have seen := visible c member
  simp only [List.contains_cons, Bool.not_eq_true', Bool.or_eq_false_iff, beq_eq_false_iff_ne]
  refine ⟨?_, ?_, ?_, rfl⟩ <;> rintro rfl <;> revert seen <;> decide

theorem scheme?_https (s : List Char) :
    scheme? ("https:".toList ++ s) = some ("https".toList, s) := rfl

theorem Inner.not_endsAuthority {c : Char} (inner : Inner c) : endsAuthority true c = false := by
  have other := inner.2
  simp only [List.mem_cons, List.not_mem_nil, or_false, not_or] at other
  simp [endsAuthority, other]

theorem splitUserInfo?_append (user : List Char) {host : List Char} (whole : '@' ∉ host) :
    splitUserInfo? (user ++ '@' :: host) = some (user, host) := by
  have cut : Text.splitOnce? '@' (user ++ '@' :: host).reverse = some (host.reverse, user.reverse) :=
    Text.splitOnce?_eq_some_iff.2 ⟨by simp, by simpa using whole⟩
  rw [splitUserInfo?, cut]
  simp

theorem userInfo_append {name password : List Char} (whole : ':' ∉ name) (solid : password ≠ []) :
    userInfo (name ++ ':' :: password) =
      (encode encodedInUserInfo name, some (encode encodedInUserInfo password)) := by
  obtain ⟨c, rest, rfl⟩ := List.exists_cons_of_ne_nil solid
  rw [userInfo, Text.takeWhile_ne_append whole, Text.dropWhile_ne_append whole]

theorem splitHost_append {host rest : List Char} (no_colon : ':' ∉ host) (no_bracket : '[' ∉ host)
    (ends : rest.head? = none ∨ rest.head? = some ':') :
    splitHost false (host ++ rest) = (host, rest) := by
  induction host with
  | nil =>
      cases rest with
      | nil => rfl
      | cons c rest =>
          obtain rfl : c = ':' := by simpa using ends
          rfl
  | cons c host ih =>
      rw [List.mem_cons, not_or] at no_colon no_bracket
      have still : (if c = '[' then true else if c = ']' then false else false) = false := by
        rw [if_neg (Ne.symm no_bracket.1), ite_self]
      rw [List.cons_append, splitHost, if_neg (by simp [Ne.symm no_colon.1]), still,
        ih no_colon.2 no_bracket.2]

/-! ## Whole addresses -/

/-- The address of a repository, by its parts.  The path goes without its first slash. -/
structure Address where
  username : List Char
  password : List Char
  host : List Char
  port : Option Nat
  path : List Char

namespace Address

variable (a : Address)

def portText : List Char :=
  match a.port with
  | none => []
  | some n => ':' :: Nat.toDigits 10 n

/-- Where the repository is. -/
def place : List Char := a.host ++ a.portText ++ '/' :: a.path

/-- What stands before the host. -/
def credentials (escaped : Char → Bool) : List Char :=
  encode escaped a.username ++ ':' :: encode escaped a.password

/-- What stands between the slashes and the path. -/
def authority (escaped : Char → Bool) : List Char :=
  a.credentials escaped ++ '@' :: (a.host ++ a.portText)

/-- The address in one text.  In the user name and the password, what `escaped` says is encoded. -/
def text (escaped : Char → Bool) : List Char :=
  "https:".toList ++ '/' :: '/' :: (a.authority escaped ++ '/' :: a.path)

/-- A user name and a password, a plain domain name, a port that does not go without saying and a
plain path. -/
structure Proper : Prop where
  some_username : a.username ≠ []
  some_password : a.password ≠ []
  domain : Domain.Plain a.host
  port : ∀ n, a.port = some n → n ≤ 65535 ∧ n ≠ 443
  path : ∀ c ∈ a.path, isPlain c = true

variable {a}

theorem inner_of_host (domain : Domain.Plain a.host) : ∀ c ∈ a.host, Inner c := by
  intro c member
  have allowed := domain.allowed c member
  constructor
  · simp only [Domain.isAllowed, Bool.and_eq_true, decide_eq_true_eq] at allowed
    rw [Char.lt_def, UInt32.lt_iff_toNat_lt]
    exact allowed.1.1.1
  · intro end_mark
    simp only [List.mem_cons, List.not_mem_nil, or_false] at end_mark
    rcases end_mark with rfl | rfl | rfl | rfl | rfl | rfl <;> revert allowed <;> decide

theorem inner_of_portText : ∀ c ∈ a.portText, Inner c ∨ c = ':' := by
  intro c member
  unfold portText at member
  split at member
  · cases member
  · rename_i n _
    rcases List.mem_cons.1 member with colon | inside
    · exact Or.inr colon
    · have digit := Nat.isDigit_of_mem_toDigits (by decide) (by decide) inside
      have plain : isPlain c = true := by simp [isPlain, Char.isAlphanum, digit]
      refine Or.inl ((inner_of_plain plain).resolve_right ?_)
      rintro rfl
      exact absurd digit (by decide)

theorem inner_of_credentials {escaped : Char → Bool} (enough : Suffices escaped) :
    ∀ c ∈ a.credentials escaped, Inner c ∨ c = ':' := by
  intro c member
  rcases List.mem_append.1 member with name | rest
  · exact Or.inl (inner_of_mem_encode enough c name)
  · rcases List.mem_cons.1 rest with colon | password
    · exact Or.inr colon
    · exact Or.inl (inner_of_mem_encode enough c password)

theorem inner_of_authority {escaped : Char → Bool} (enough : Suffices escaped) (proper : a.Proper) :
    ∀ c ∈ a.authority escaped, Inner c ∨ c = ':' ∨ c = '@' := by
  intro c member
  rcases List.mem_append.1 member with before | behind
  · exact (inner_of_credentials enough c before).imp_right Or.inl
  · rcases List.mem_cons.1 behind with at_sign | place
    · exact Or.inr (Or.inr at_sign)
    · rcases List.mem_append.1 place with host | port
      · exact Or.inl (inner_of_host proper.domain c host)
      · exact (inner_of_portText c port).imp_right Or.inl

theorem takeWhile_authority {escaped : Char → Bool} (enough : Suffices escaped)
    (proper : a.Proper) :
    (a.authority escaped ++ '/' :: a.path).takeWhile (!endsAuthority true ·) =
      a.authority escaped := by
  rw [List.takeWhile_append_of_pos]
  · exact List.append_nil _
  · intro c member
    rcases inner_of_authority enough proper c member with inner | rfl | rfl
    · rw [inner.not_endsAuthority]
      rfl
    · rfl
    · rfl

theorem splitUserInfo?_authority {escaped : Char → Bool} (proper : a.Proper) :
    splitUserInfo? (a.authority escaped) = some (a.credentials escaped, a.host ++ a.portText) := by
  apply splitUserInfo?_append
  intro member
  rcases List.mem_append.1 member with host | port
  · exact (inner_of_host proper.domain '@' host).2 (by decide)
  · rcases inner_of_portText '@' port with inner | colon
    · exact inner.2 (by decide)
    · exact absurd colon (by decide)

theorem userInfo_credentials {escaped : Char → Bool} (enough : Suffices escaped)
    (proper : a.Proper) :
    userInfo (a.credentials escaped) = (encode (encodedTwice escaped) a.username,
      some (encode (encodedTwice escaped) a.password)) := by
  have no_colon : ':' ∉ encode escaped a.username := fun member =>
    (inner_of_mem_encode enough ':' member).2 (by decide)
  rw [credentials, userInfo_append no_colon (encode_ne_nil proper.some_password), encode_encode,
    encode_encode]

theorem splitHost_host (domain : Domain.Plain a.host) :
    splitHost false (a.host ++ a.portText) = (a.host, a.portText) := by
  apply splitHost_append
  · intro member
    exact (inner_of_host domain ':' member).2 (by decide)
  · intro member
    exact absurd (domain.allowed '[' member) (by decide)
  · unfold portText
    split
    · exact Or.inl rfl
    · exact Or.inr rfl

theorem port?_https {n : Nat} (bound : n ≤ 65535) (other : n ≠ 443) :
    port? "https".toList (Nat.toDigits 10 n) = .ok (some n, []) := by
  have default : defaultPort? "https".toList = some 443 := by decide
  refine port?_toDigits bound ?_
  rw [default]
  exact fun same => other (Option.some.inj same).symm

theorem beforeQuery_path (plain : ∀ c ∈ a.path, isPlain c = true) :
    beforeQuery ('/' :: a.path) = '/' :: a.path := by
  rw [beforeQuery, List.takeWhile_eq_self_iff]
  intro c member
  rcases List.mem_cons.1 member with rfl | inside
  · decide
  · rcases inner_of_plain (plain c inside) with inner | rfl
    · have other := inner.2
      simp only [List.mem_cons, List.not_mem_nil, or_false, not_or] at other
      simp [other]
    · decide

theorem afterSlashes_authority {escaped : Char → Bool} (enough : Suffices escaped)
    (proper : a.Proper) :
    afterSlashes "https".toList (a.authority escaped ++ '/' :: a.path) =
      .ok ⟨"https".toList, encode (encodedTwice escaped) a.username,
        some (encode (encodedTwice escaped) a.password), some (.name a.host), a.port,
        '/' :: a.path⟩ := by
  have special : isSpecial "https".toList = true := by decide
  have some_credentials : a.credentials escaped ≠ [] := by simp [credentials]
  have some_name : Host.name a.host ≠ .name [] := fun same =>
    proper.domain.solid (Host.name.inj same)
  simp only [afterSlashes, special, takeWhile_authority enough proper, List.drop_left,
    splitUserInfo?_authority proper, Option.getD_some, some_credentials, false_and, if_false,
    userInfo_credentials enough proper, splitHost_host proper.domain, proper.domain.solid,
    and_false, if_true, Host.parse_plain proper.domain, beforeQuery_path proper.path]
  simp only [bind, Except.bind, pure, Except.pure, if_neg some_name, reduceCtorEq, false_and,
    if_false, portText]
  cases some_port : a.port with
  | none => simp only [List.nil_append, pathAfterHost_plain proper.path]
  | some n =>
      obtain ⟨bound, other⟩ := proper.port n some_port
      simp only [port?_https bound other, List.nil_append, pathAfterHost_plain proper.path]

theorem visible_text {escaped : Char → Bool} (enough : Suffices escaped) (proper : a.Proper) :
    ∀ c ∈ a.text escaped, ' ' < c := by
  have scheme : ∀ c ∈ "https:".toList, ' ' < c := Text.forall_of_all (by decide)
  have authority : ∀ c ∈ a.authority escaped, ' ' < c := by
    intro c member
    rcases inner_of_authority enough proper c member with inner | rfl | rfl
    · exact inner.1
    · decide
    · decide
  have path : ∀ c ∈ a.path, ' ' < c := by
    intro c member
    rcases inner_of_plain (proper.path c member) with inner | rfl
    · exact inner.1
    · decide
  have slash : ' ' < '/' := by decide
  have rooted : ∀ c ∈ '/' :: a.path, ' ' < c := List.forall_mem_cons.2 ⟨slash, path⟩
  have behind : ∀ c ∈ a.authority escaped ++ '/' :: a.path, ' ' < c :=
    List.forall_mem_append.2 ⟨authority, rooted⟩
  exact List.forall_mem_append.2
    ⟨scheme, List.forall_mem_cons.2 ⟨slash, List.forall_mem_cons.2 ⟨slash, behind⟩⟩⟩

theorem dropWhile_slashes {escaped : Char → Bool} (enough : Suffices escaped) (proper : a.Proper) :
    ('/' :: '/' :: (a.authority escaped ++ '/' :: a.path)).dropWhile
      (fun c => c = '/' || c = '\\') = a.authority escaped ++ '/' :: a.path := by
  have some_authority : a.authority escaped ≠ [] := by simp [authority]
  obtain ⟨c, rest, text⟩ := List.exists_cons_of_ne_nil some_authority
  have first := inner_of_authority enough proper c (by rw [text]; exact List.mem_cons_self)
  have other : c ≠ '/' ∧ c ≠ '\\' := by
    rcases first with inner | rfl | rfl
    · have marks := inner.2
      simp only [List.mem_cons, not_or] at marks
      exact ⟨marks.1, marks.2.1⟩
    · decide
    · decide
  rw [text, List.cons_append]
  simp [other]

/-- **What is found in the text of an address.** -/
theorem parse_text {escaped : Char → Bool} (enough : Suffices escaped) (proper : a.Proper) :
    Url.parse (String.ofList (a.text escaped)) =
      .ok ⟨"https".toList, encode (encodedTwice escaped) a.username,
        some (encode (encodedTwice escaped) a.password), some (.name a.host), a.port,
        '/' :: a.path⟩ := by
  have scheme : scheme? (a.text escaped) =
      some ("https".toList, '/' :: '/' :: (a.authority escaped ++ '/' :: a.path)) :=
    scheme?_https _
  have other : "https".toList ≠ "file".toList := by decide
  have special : isSpecial "https".toList = true := by decide
  rw [Url.parse, String.toList_ofList, prepare_of_visible (visible_text enough proper), scheme]
  simp only [if_neg other, special, if_true, dropWhile_slashes enough proper]
  exact afterSlashes_authority enough proper

end Address

end Url

end DevMode
