/-
# DevMode.Proofs.Reports -- from a reporter to the terminal

Reports wait on a queue until they are shown, and they are shown as marked text.

* `Runs.balance`: what was shown and what is waiting are the reports made, in their order, after
  each step of either end.
* `Runs.exists_end`: a run always goes on to an end, by showing what is waiting.
* `printed_iff`: without colours all reports of a run are printed word by word exactly if the texts
  are intact.  Their context and message are put between tags as they are, so a text of several
  lines is printed with the tags, and one with a closing tag in it without that tag.
-/
import DevMode.Report
import DevMode.Proofs.Markup
import Mathlib.Data.List.Induction
import Mathlib.Data.List.Perm.Basic

namespace DevMode

set_option autoImplicit false

open Markup

/-! ## A report as a line -/

namespace Report

/-- What is to be read of a report. -/
def text (r : Report) : List Char := ['e', 'r', 'r', 'o', 'r', ':', ' '] ++ r.display.toList

@[simp] theorem head?_text (r : Report) : r.text.head? = some 'e' := rfl

/-- **The line of a report is its text, marked**: no line end stands behind the closing tag. -/
theorem line_eq (r : Report) :
    r.line = ⟨Console.controlTag, String.ofList (marked .error r.text)⟩ := by
  have whole : ("<error>error: " ++ r.display ++ "</error>").toList = marked .error r.text := by
    simp [marked, text, Token.written, Mark.name]
  have ending : marked .error r.text =
      ((Token.opening .error).written ++ (r.text ++ '<' :: '/' :: Mark.error.name)) ++ ['>'] := by
    simp [marked, Token.written]
  rw [line, Console.control_of_concat (whole.trans ending) (by decide), ← whole,
    String.ofList_toList]

end Report

/-! ## The aligned line -/

namespace Prefixer

/-- What stands before a message of the session itself where no colours are used. -/
def lead (p : Prefixer) : List Char := p.pad Console.controlTag ++ [' ', '|', ' ']

/-- The width does not depend on the order of the keys. -/
theorem width_ofServices (services : List String) (color : Bool) :
    (ofServices services color).width =
      ((([Console.controlTag, Console.buildTag] ++ services).eraseDups).map
        String.utf8ByteSize).foldl max 0 :=
  ((List.mergeSort_perm _ _).map _).foldl_eq 0

theorem lead_without_services : (ofServices [] false).lead =
    ['d', 'e', 'v', 'l', 'o', 'o', 'p', ' ', '|', ' '] := by
  rw [lead, pad, width_ofServices]
  decide +kernel

theorem format_report {p : Prefixer} (colorless : p.color = false) (r : Report) :
    p.format r.line = String.ofList (p.lead ++ plain (tokens (marked .error r.text))) := by
  rw [r.line_eq, format, shownKey, colorless]
  simp [render, plain, lead]

/-- **A report is printed word by word exactly if its text is intact.** -/
theorem format_report_eq_iff {p : Prefixer} (colorless : p.color = false) (r : Report) :
    p.format r.line = String.ofList (p.lead ++ r.text) ↔ Intact .error r.text := by
  rw [format_report colorless, ← String.toList_inj, String.toList_ofList, String.toList_ofList,
    List.append_cancel_left_eq]
  exact plain_marked_eq_iff (by simp)

/-- The opening tag is printed behind the key exactly if the first line of the text ends before any
closing tag. -/
theorem opening_prefix_format_iff {p : Prefixer} (colorless : p.color = false) (r : Report) :
    p.lead ++ (Token.opening .error).written <+: (p.format r.line).toList ↔ BreaksFirst r.text := by
  rw [format_report colorless, String.toList_ofList, List.prefix_append_right_inj]
  exact opening_prefix_plain_iff (by simp)

end Prefixer

/-! ## The queue -/

namespace ReportQueue

/-- The two ends of a queue at work: the reports that were made, the lines that were shown, and the
queue as they leave it. -/
inductive Runs (q₀ : ReportQueue) : List Report → List Line → ReportQueue → Prop where
  | start : Runs q₀ [] [] q₀
  | report {made : List Report} {shown : List Line} {q : ReportQueue} (before : Runs q₀ made shown q)
      (reporter : q.hasReporter = true) (r : Report) : Runs q₀ (made ++ [r]) shown (q.push r)
  | drop {made : List Report} {shown : List Line} {q : ReportQueue} (before : Runs q₀ made shown q) :
      Runs q₀ made shown { q with hasReporter := false }
  | take {made : List Report} {shown : List Line} {q q' : ReportQueue} {r : Report}
      (before : Runs q₀ made shown q) (taken : q.receive = (.report r, q')) :
      Runs q₀ made (shown ++ [r.line]) q'

variable {q₀ q q' : ReportQueue} {made : List Report} {shown : List Line} {r : Report}

theorem receive_report (taken : q.receive = (.report r, q')) :
    ∃ rest, q.waiting = r :: rest ∧ q' = { q with waiting := rest } := by
  rw [receive] at taken
  split at taken
  case h_1 r' rest front =>
    obtain ⟨same, rfl⟩ := Prod.mk.inj taken
    obtain rfl := Received.report.inj same
    exact ⟨rest, front, rfl⟩
  case h_2 => split at taken <;> simp at taken

theorem waiting_of_stop (ended : q.receive.1 = .stop) : q.waiting = [] := by
  rw [receive] at ended
  split at ended
  case h_1 => simp at ended
  case h_2 nothing => exact nothing

/-- **Nothing is lost and nothing comes twice.** -/
theorem Runs.balance (run : Runs q₀ made shown q) (receiver : q₀.hasReceiver = true) :
    q.hasReceiver = true ∧
      shown ++ q.waiting.map Report.line = (q₀.waiting ++ made).map Report.line := by
  induction run with
  | start => exact ⟨receiver, by simp⟩
  | report before reporter r ih =>
      obtain ⟨open_end, same⟩ := ih
      rw [push, if_pos open_end]
      refine ⟨open_end, ?_⟩
      rw [List.map_append, ← List.append_assoc, same, ← List.map_append, List.append_assoc]
  | drop before ih => exact ih
  | take before taken ih =>
      obtain ⟨rest, front, rfl⟩ := receive_report taken
      obtain ⟨open_end, same⟩ := ih
      rw [front] at same
      exact ⟨open_end, by rw [← same, List.append_assoc]; rfl⟩

/-- **What is waiting can be shown to the end.** -/
theorem Runs.exists_end (run : Runs q₀ made shown q) :
    ∃ q', Runs q₀ made (shown ++ q.lines false) q' ∧ q'.receive.1 = .stop := by
  induction front : q.waiting generalizing q shown with
  | nil =>
      refine ⟨_, by simpa [lines, front] using run.drop, ?_⟩
      simp [receive]
  | cons r rest ih =>
      have taken : q.receive = (.report r, { q with waiting := rest }) := by rw [receive, front]
      obtain ⟨q', goes_on, ended⟩ := ih (run.take taken) rfl
      refine ⟨q', ?_, ended⟩
      rw [List.append_assoc] at goes_on
      simpa [lines, front] using goes_on

/-- A run that has come to its end has shown every report once, in the order they were made. -/
theorem Runs.shown_eq (run : Runs new made shown q) (ended : q.receive.1 = .stop) :
    shown = made.map Report.line := by
  obtain ⟨-, same⟩ := run.balance rfl
  rw [waiting_of_stop ended] at same
  simpa [new] using same

theorem runs_report (made : List Report) : Runs new made [] ⟨made, true, true⟩ := by
  induction made using List.reverseRecOn with
  | nil => exact .start
  | append_singleton made r ih => exact ih.report rfl r

/-- **The reports of a run are printed word by word exactly if all their texts are intact.** -/
theorem printed_iff (services : List String) (made : List Report) :
    let p := Prefixer.ofServices services false
    (∃ q, Runs new made (made.map Report.line) q ∧ q.receive.1 = .stop) ∧
      ∀ (shown : List Line) (q : ReportQueue), Runs new made shown q → q.receive.1 = .stop →
        shown.map p.format = made.map (fun r => p.format r.line) ∧
          (shown.map p.format = made.map (fun r => String.ofList (p.lead ++ r.text)) ↔
            ∀ r ∈ made, Intact .error r.text) ∧
          ∀ r ∈ made, p.lead ++ (Token.opening .error).written <+: (p.format r.line).toList ↔
            BreaksFirst r.text := by
  intro p
  refine ⟨(runs_report made).exists_end, fun shown q run ended => ?_⟩
  have whole : shown.map p.format = made.map (fun r => p.format r.line) := by
    rw [run.shown_eq ended, List.map_map]
    rfl
  refine ⟨whole, ?_, fun r _ => p.opening_prefix_format_iff rfl r⟩
  rw [whole, List.map_inj_left]
  exact forall₂_congr fun r _ => p.format_report_eq_iff rfl r

/-- A report of one line without closing tags is printed as it is. -/
theorem printed_iff_of_one_line :
    let r : Report := ⟨"sync web:/app", "connection reset"⟩
    ∃ q, Runs new [r] [r.line] q ∧ q.receive.1 = .stop ∧ Intact .error r.text ∧
      [r.line].map (Prefixer.ofServices [] false).format =
        ["devloop | error: sync web:/app: connection reset"] := by
  intro r
  have taken : receive ⟨[r], true, true⟩ = (.report r, ⟨[], true, true⟩) := rfl
  have run : Runs new [r] [r.line] ⟨[], false, true⟩ := ((runs_report [r]).take taken).drop
  have intact : Intact .error r.text := by
    have open_end : ∀ t ∈ tokens r.text, t.ends = false := by decide +kernel
    obtain ⟨one_line, no_closing⟩ := forall_not_ends_iff.1 open_end
    exact ⟨one_line, r.text, 0, (List.append_nil _).symm, no_closing⟩
  refine ⟨_, run, rfl, intact, ?_⟩
  rw [((printed_iff [] [r]).2 _ _ run rfl).2.1.2 (by simpa using intact),
    Prefixer.lead_without_services]
  decide +kernel

/-- A report of two lines is printed with its tags, and one with a closing tag in it loses that tag
and keeps the one behind it. -/
theorem printed_with_tags :
    let p := Prefixer.ofServices [] false
    let made : List Report := [⟨"sync web", "a\nb"⟩, ⟨"sync web", "see </dir> for"⟩]
    ∃ shown q, Runs new made shown q ∧ q.receive.1 = .stop ∧
      shown.map p.format =
        ["devloop | <error>error: sync web: a\nb</error>",
          "devloop | error: sync web: see  for</error>"] ∧
      made.map (fun r => String.ofList (p.lead ++ r.text)) =
        ["devloop | error: sync web: a\nb", "devloop | error: sync web: see </dir> for"] ∧
      shown.map p.format ≠ made.map (fun r => String.ofList (p.lead ++ r.text)) := by
  intro p made
  obtain ⟨q, run, ended⟩ := (runs_report made).exists_end
  have lead : p.lead = ['d', 'e', 'v', 'l', 'o', 'o', 'p', ' ', '|', ' '] :=
    Prefixer.lead_without_services
  have printed : (made.map Report.line).map p.format =
      ["devloop | <error>error: sync web: a\nb</error>",
        "devloop | error: sync web: see  for</error>"] := by
    have formatted : p.format ∘ Report.line = fun r =>
        String.ofList (p.lead ++ plain (tokens (marked .error r.text))) :=
      funext fun r => p.format_report rfl r
    rw [List.map_map, formatted, lead]
    decide +kernel
  have texts : made.map (fun r => String.ofList (p.lead ++ r.text)) =
      ["devloop | error: sync web: a\nb", "devloop | error: sync web: see </dir> for"] := by
    rw [lead]
    decide +kernel
  refine ⟨_, q, run, ended, printed, texts, ?_⟩
  rw [texts]
  exact fun same => absurd (printed.symm.trans same) (by decide +kernel)

end ReportQueue

end DevMode
