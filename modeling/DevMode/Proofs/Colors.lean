/-
# DevMode.Proofs.Colors -- colours change nothing of the text

With colours on, a line is the line without them and codes that set the style (`EscapeCode.style`).

* `erase_apply`: what is painted is the text between two such codes.
* `erase_renderTokens`: both ways to show a message agree on what its marked parts are.
* `erase_format`: so, if neither key nor message has an ESC of its own, a line without its codes is the
  line that is printed without colours.
-/
import DevMode.Console
import DevMode.Proofs.EscapeCode
import DevMode.Proofs.Markup

namespace DevMode

set_option autoImplicit false

open EscapeCode

/-- The code that sets the style of what follows: any count of numbers, and `m`. -/
def EscapeCode.style : EscapeCode where
  isDigit := Char.isDigit
  takes := fun _ => true
  letter := 'm'
  digits_apart := by
    intro c digit
    refine ⟨?_, ?_, ?_⟩ <;> rintro rfl <;> revert digit <;> decide
  letter_apart := by decide

/-! ## Paint -/

namespace Paint

theorem isCode_number {number : List Char} (is_number : style.IsNumber number) :
    style.IsCode ('\x1b' :: '[' :: (number ++ ['m'])) :=
  ⟨[number], List.cons_ne_nil _ _, rfl, by simpa using is_number, rfl⟩

theorem isCode_start (p : Paint) : style.IsCode p.start := by
  have number : style.IsNumber p.code.toList := by cases p <;> exact ⟨by decide, List.all_eq_true.1 (by decide)⟩
  exact isCode_number number

theorem isCode_reset : style.IsCode reset := by
  have zero : style.IsNumber ['0'] := ⟨List.cons_ne_nil _ _, List.all_eq_true.1 (by decide)⟩
  exact isCode_number zero

/-- Without a reset in it, a text is painted as it is. -/
theorem reopen_of_plain (p : Paint) {text : List Char} (plain : '\x1b' ∉ text) : p.reopen text = text := by
  induction text with
  | nil => rfl
  | cons c text ih =>
      obtain ⟨first, behind⟩ := List.ne_and_not_mem_of_not_mem_cons plain
      rw [reopen, ih behind]
      exact fun _ escape _ => first escape.symm

/-- **Paint adds codes only.** -/
theorem erase_apply (p : Paint) {text : List Char} (plain : '\x1b' ∉ text) (rest : List Char) :
    style.erase (p.apply text ++ rest) = text ++ style.erase rest := by
  rw [apply, reopen_of_plain p plain, List.append_assoc, List.append_assoc, erase_code p.isCode_start,
    erase_append plain, erase_code isCode_reset]

end Paint

/-! ## Messages -/

namespace Markup

theorem erase_display (m : Mark) {text : List Char} (plain : '\x1b' ∉ text) (rest : List Char) :
    style.erase (display true m text ++ rest) = display false m text ++ style.erase rest :=
  m.paint.erase_apply plain rest

/-- **The parts of a message are the same with colours and without**, and with colours only codes are
added to them. -/
theorem erase_renderTokens {ts : List Token} (no_escape : '\x1b' ∉ written ts) :
    style.erase (renderTokens (display true) ts) = renderTokens (display false) ts := by
  induction ts using renderTokens.induct with
  | case1 => rw [renderTokens, renderTokens, erase_nil]
  | case2 m ts text rest found ih =>
      obtain ⟨m', whole⟩ := written_of_body? found
      have apart : '\x1b' ∉ text ∧ '\x1b' ∉ written rest := by
        simp only [written_cons, whole, List.mem_append, not_or] at no_escape
        exact ⟨no_escape.2.1, no_escape.2.2.2⟩
      rw [renderTokens_opening, renderTokens_opening, found]
      dsimp only
      rw [erase_display m apart.1, ih apart.2]
  | case3 m ts none_found ih =>
      obtain ⟨tag, behind⟩ := not_or.1 (mt List.mem_append.2 no_escape)
      rw [renderTokens_opening, renderTokens_opening, none_found]
      dsimp only
      rw [erase_append tag, ih behind]
  | case4 t ts other ih =>
      obtain ⟨here, behind⟩ := not_or.1 (mt List.mem_append.2 no_escape)
      rw [renderTokens, renderTokens, erase_append here, ih behind]
      · exact other
      · exact other

theorem erase_render {message : String} (plain : '\x1b' ∉ message.toList) :
    style.erase (render true message).toList = (render false message).toList := by
  rw [render, render, String.toList_ofList, String.toList_ofList, erase_renderTokens]
  rwa [written_tokens]

end Markup

/-! ## Lines -/

namespace Prefixer

theorem escape_notMem_pad (p : Prefixer) {key : String} (plain : '\x1b' ∉ key.toList) :
    '\x1b' ∉ p.pad key := by
  simp [pad, plain]

theorem erase_shownKey (services : List String) {key : String} (plain : '\x1b' ∉ key.toList)
    (rest : List Char) :
    style.erase ((ofServices services true).shownKey key ++ rest) =
      (ofServices services false).shownKey key ++ style.erase rest := by
  have padded := (ofServices services true).escape_notMem_pad plain
  have same : (ofServices services false).shownKey key = (ofServices services true).pad key := rfl
  rw [same, shownKey]
  split
  · exact erase_append padded rest
  · split
    · exact Paint.dimmed.erase_apply padded rest
    · exact ((ofServices services true).paintOf key).erase_apply padded rest

/-- **Colours never change the text.**  Without its codes, a line that is printed in colours is the line
without colours, and so is a message, whatever its tags. -/
theorem erase_format (services : List String) :
    (∀ l : Line, '\x1b' ∉ l.key.toList → '\x1b' ∉ l.message.toList →
      style.erase ((ofServices services true).format l).toList =
        ((ofServices services false).format l).toList) ∧
    ∀ message : String, '\x1b' ∉ message.toList →
      style.erase (Markup.render true message).toList = (Markup.render false message).toList := by
  refine ⟨fun l key message => ?_, fun message plain => Markup.erase_render plain⟩
  have bar : '\x1b' ∉ [' ', '|', ' '] := by decide
  have on : (ofServices services true).color = true := rfl
  have off : (ofServices services false).color = false := rfl
  rw [format, format, String.toList_ofList, String.toList_ofList, List.append_assoc, List.append_assoc,
    erase_shownKey services key, erase_append bar, on, off, Markup.erase_render message]

/-- A line of several rows, with tags that are nested, crossed and left open. -/
def tagged : Line := ⟨"web", "<dir>a<error>b</service>c</dir>\n<service>d<dir>e\n</dir><error></error>"⟩

/-- The first closing tag on a line ends what the first opening tag marks. -/
theorem erase_format_tagged :
    '\x1b' ∉ tagged.key.toList ∧ '\x1b' ∉ tagged.message.toList ∧
      style.erase ((ofServices ["web"] true).format tagged).toList =
        ((ofServices ["web"] false).format tagged).toList ∧
      style.erase (Markup.render true tagged.message).toList =
        "a<error>bc</dir>\n<service>d<dir>e\n</dir>".toList := by
  have key : '\x1b' ∉ tagged.key.toList := by decide
  have message : '\x1b' ∉ tagged.message.toList := by decide
  have shown : Markup.render false tagged.message = "a<error>bc</dir>\n<service>d<dir>e\n</dir>" := by
    cbv
  refine ⟨key, message, (erase_format ["web"]).1 tagged key message, ?_⟩
  rw [(erase_format ["web"]).2 tagged.message message, shown]

end Prefixer

end DevMode
