/-
# DevMode.Proofs.ScreenCommands -- commands that place the cursor, in what is shown of a log

A line of a service is kept from placing the cursor by taking out the escape codes that do
(`EscapeCode.cursor`), in one pass (`stripScreenCommands_eq`).  What stood on both sides of a code
comes together then, and may be such a code itself.

* `cursor_left_iff`: the cursor is placed all the same just if the message has a code that is broken up
  by others, and then a second pass would take out more.
* `cursor_left_behind` is such a message.
-/
import DevMode.Log.Entry
import DevMode.Proofs.EscapeCode
import Mathlib.Data.List.TakeWhile

namespace DevMode

set_option autoImplicit false

/-- The code that places the cursor: a row and a column in digits of any script, and `H`. -/
def EscapeCode.cursor : EscapeCode where
  isDigit := Text.isDecimalDigit
  takes := (· == 2)
  letter := 'H'
  digits_apart := by
    intro c digit
    refine ⟨?_, ?_, ?_⟩ <;> rintro rfl <;> revert digit <;> decide
  letter_apart := by decide

namespace LogEntry

open EscapeCode

/-! ## Taking out the commands -/

theorem isCode_cursor_iff {text : List Char} :
    cursor.IsCode text ↔ ∃ row column, cursor.IsNumber row ∧ cursor.IsNumber column ∧
      text = '\x1b' :: '[' :: (row ++ ';' :: (column ++ ['H'])) := by
  constructor
  · rintro ⟨numbers, -, two, each, rfl⟩
    obtain ⟨row, column, rfl⟩ := List.length_eq_two.1 (eq_of_beq two)
    exact ⟨row, column, each row (by simp), each column (by simp), by simp [Text.glue, cursor]⟩
  · rintro ⟨row, column, row_number, column_number, rfl⟩
    exact ⟨[row, column], by simp, rfl, by simp [row_number, column_number],
      by simp [Text.glue, cursor]⟩

theorem afterNumber?_eq_some_iff {c : Char} (apart : Text.isDecimalDigit c = false)
    {s rest : List Char} :
    afterNumber? c s = some rest ↔ ∃ number, cursor.IsNumber number ∧ s = number ++ c :: rest := by
  have cut : s.drop (digitCount s) = s.dropWhile Text.isDecimalDigit := by
    conv_lhs => rw [← List.takeWhile_append_dropWhile (p := Text.isDecimalDigit) (l := s)]
    exact List.drop_left' (by rw [List.takeWhile_append_dropWhile]; rfl)
  rw [afterNumber?, cut]
  constructor
  · intro found
    split at found
    · cases found
    · rename_i some_digit
      refine ⟨s.takeWhile Text.isDecimalDigit, ⟨fun none_there => some_digit ?_, fun d member =>
        List.mem_takeWhile_imp member⟩, ?_⟩
      · rw [digitCount, none_there]
        rfl
      · have behind := Text.after?_eq_some_iff.1 found
        rw [List.singleton_append] at behind
        rw [← behind, List.takeWhile_append_dropWhile]
  · rintro ⟨number, ⟨some_digit, each⟩, rfl⟩
    have digits : ∀ d ∈ number, Text.isDecimalDigit d = true := each
    have apart' : ¬ Text.isDecimalDigit c = true := by simp [apart]
    have count : ¬ digitCount (number ++ c :: rest) = 0 := by
      rw [digitCount, List.takeWhile_append_of_pos digits, List.takeWhile_cons_of_neg apart']
      simpa using some_digit
    rw [if_neg count, List.dropWhile_append_of_pos digits, List.dropWhile_cons_of_neg apart']
    exact Text.after?_eq_some_iff.2 rfl

/-- What is taken for a command is a code that places the cursor. -/
theorem afterScreenCommand?_eq (s : List Char) : afterScreenCommand? s = cursor.after? s := by
  refine Option.ext fun rest => ?_
  have semicolon : Text.isDecimalDigit ';' = false := by decide
  have last : Text.isDecimalDigit 'H' = false := by decide
  simp only [EscapeCode.after?_eq_some_iff, isCode_cursor_iff, afterScreenCommand?, Option.bind_eq_bind,
    Option.bind_eq_some_iff, Text.after?_eq_some_iff, afterNumber?_eq_some_iff semicolon,
    afterNumber?_eq_some_iff last]
  constructor
  · rintro ⟨_, rfl, _, ⟨row, row_number, rfl⟩, column, column_number, rfl⟩
    exact ⟨_, ⟨row, column, row_number, column_number, rfl⟩, by simp⟩
  · rintro ⟨_, ⟨row, column, row_number, column_number, rfl⟩, rfl⟩
    exact ⟨row ++ ';' :: (column ++ 'H' :: rest), by simp, _, ⟨row, row_number, rfl⟩, column, column_number, rfl⟩

theorem stripFrom_eq (skip : Nat) (s : List Char) : stripFrom skip s = cursor.eraseFrom skip s := by
  induction s generalizing skip with
  | nil => cases skip <;> rfl
  | cons c s ih =>
      cases skip with
      | succ skip => exact ih skip
      | zero =>
          rw [stripFrom, eraseFrom, afterScreenCommand?_eq]
          cases cursor.after? (c :: s) with
          | none => exact congrArg (c :: ·) (ih 0)
          | some rest => exact ih _

/-- **A message is shown without the codes that one pass finds.** -/
theorem stripScreenCommands_eq (s : String) :
    stripScreenCommands s = String.ofList (cursor.erase s.toList) :=
  congrArg String.ofList (stripFrom_eq 0 s.toList)

/-! ## What is left -/

theorem route?_of_service {e : LogEntry} (service : e.kind = "service") {interest : List String}
    {l : Line} (routed : e.route? interest = some l) : l.message = stripScreenCommands e.message := by
  rw [route?, if_pos service] at routed
  split at routed
  · rw [← Option.some.inj routed]
  · cases routed

/-- **When what is shown of a service's message still places the cursor**: just if a code that
does so is broken up by others in it, and just then another pass would change something. -/
theorem cursor_left_iff (message : String) :
    (cursor.Contains (stripScreenCommands message).toList ↔ cursor.BrokenUp message.toList) ∧
    (stripScreenCommands (stripScreenCommands message) = stripScreenCommands message ↔
      ¬ cursor.BrokenUp message.toList) ∧
    ∀ (e : LogEntry) (interest : List String) (l : Line), e.kind = "service" → e.message = message →
      e.route? interest = some l →
        (cursor.Contains l.message.toList ↔ cursor.BrokenUp message.toList) := by
  have left : cursor.Contains (stripScreenCommands message).toList ↔ cursor.BrokenUp message.toList := by
    rw [stripScreenCommands_eq, String.toList_ofList, contains_erase_iff]
  refine ⟨left, ?_, ?_⟩
  · rw [← left, ← erase_eq_self_iff, stripScreenCommands_eq (stripScreenCommands message)]
    exact ⟨fun same => by simpa using congrArg String.toList same,
      fun same => by rw [same, String.ofList_toList]⟩
  · rintro e interest l service rfl routed
    rw [route?_of_service service routed, left]

/-- A service that clears the screen before it greets. -/
def greeting : LogEntry := ⟨"2024-01-01", "00:00:00", "service", "web", "i-1", "\x1b[1;1HHello"⟩

/-- A code on its own is taken out, and none is left. -/
theorem cursor_left_iff_of_greeting :
    greeting.kind = "service" ∧ greeting.route? ["web"] = some ⟨"web", "Hello"⟩ ∧
      ¬ cursor.Contains "Hello".toList ∧ ¬ cursor.BrokenUp greeting.message.toList := by
  have routed : greeting.route? ["web"] = some ⟨"web", "Hello"⟩ := by decide +kernel
  have stays : stripScreenCommands (stripScreenCommands greeting.message) =
      stripScreenCommands greeting.message := by decide +kernel
  have whole := (cursor_left_iff greeting.message).2.1.1 stays
  exact ⟨rfl, routed, fun left =>
    whole (((cursor_left_iff greeting.message).2.2 greeting ["web"] _ rfl rfl routed).1 left), whole⟩

/-- A code in the middle of another. -/
def overlaid : String := "\x1b[1\x1b[1;1H;1H"

/-- **A code comes together when another inside it is taken out**, and it is shown. -/
theorem cursor_left_behind :
    stripScreenCommands overlaid = "\x1b[1;1H" ∧ cursor.Contains (stripScreenCommands overlaid).toList ∧
      stripScreenCommands (stripScreenCommands overlaid) = "" ∧
      { greeting with message := overlaid }.route? ["web"] = some ⟨"web", "\x1b[1;1H"⟩ := by
  have left : stripScreenCommands overlaid = "\x1b[1;1H" := by decide +kernel
  have number : cursor.IsNumber ['1'] := ⟨List.cons_ne_nil _ _, List.all_eq_true.1 (by decide)⟩
  refine ⟨left, ⟨_, isCode_cursor_iff.2 ⟨['1'], ['1'], number, number, rfl⟩, ?_⟩, by decide +kernel,
    by decide +kernel⟩
  rw [left]
  exact List.infix_refl _

end LogEntry

end DevMode
