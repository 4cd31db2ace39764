import GhostText.Match.Bounds
import GhostText.Proofs.Text.Ending

namespace GhostText

open Text

namespace Text

variable {w : Text}

theorem lastLine_append_lineFeed (a t : Text) : lastLine (a ++ '\n' :: t) = lastLine t := by
  rw [lastLine_append_of_mem a List.mem_cons_self, lastLine_cons_lineFeed]

-- Blanks in front of a text leave its last line as it is, or indent it.
theorem trimLeft_lastLine_append_of_blank (hw : allBlank w = true) (t : Text) :
    trimLeft isBlank (lastLine (w ++ t)) = trimLeft isBlank (lastLine t) := by
  by_cases hm : '\n' ∈ t
  case pos => rw [lastLine_append_of_mem w hm]
  case neg =>
    have hl : squeeze (lastLine w) = [] := by
      rw [squeeze_eq_nil_iff, allBlank, List.all_eq_true]
      exact fun c hc => List.all_eq_true.mp hw c ((lastLine_isSuffix w).mem hc)
    rw [lastLine_append_of_not_mem w hm, trimLeft_append_of_blank t hl, lastLine_of_not_mem hm]

theorem trimLeft_lastLine_reindent (a : Text) (hw : allBlank w = true) (b : Text) :
    trimLeft isBlank (lastLine (a ++ '\n' :: (w ++ b))) = trimLeft isBlank (lastLine (a ++ '\n' :: b)) := by
  rw [lastLine_append_lineFeed, lastLine_append_lineFeed, trimLeft_lastLine_append_of_blank hw]

theorem normalForm_reindent (a : Text) (hw : allBlank w = true) (b : Text) :
    normalForm (a ++ '\n' :: (w ++ b)) = normalForm (a ++ '\n' :: b) := by
  have hl : squeeze (lastLine (a ++ ['\n'])) = [] := by rw [lastLine_append_lineFeed]; rfl
  have := normalForm_indent hl hw b
  rwa [List.append_assoc, List.append_assoc] at this

end Text

namespace Bounds

variable {before before' stored stored' insertion w : Text}

-- Of the text before the cursor only the normal form counts, and the last line without its indentation.
theorem judge_congr_before (hn : normalForm before = normalForm before')
    (hl : trimLeft isBlank (lastLine before) = trimLeft isBlank (lastLine before')) :
    judge before stored insertion = judge before' stored insertion := by
  simp only [judge, locate, hn, hl]

-- Of the text a prediction was made for the same counts, and the normal form of the text with the insertion.
theorem judge_congr_stored (hn : normalForm stored = normalForm stored')
    (hj : normalForm (stored ++ insertion) = normalForm (stored' ++ insertion))
    (hl : trimLeft isBlank (lastLine stored) = trimLeft isBlank (lastLine stored')) :
    judge before stored insertion = judge before stored' insertion := by
  have hc (current : Text) : continues current stored insertion = continues current stored' insertion := by
    simp only [continues, hn, hj]
  have hloc (n : Nat) : locate before stored insertion n = locate before stored' insertion n := by
    simp only [locate, hl]
  simp only [judge, hc, hn, hloc]

theorem match?_reindent (a b w : Text) (hw : allBlank w = true) :
    (∀ stored insertion,
        match? (a ++ '\n' :: (w ++ b)) stored insertion = match? (a ++ '\n' :: b) stored insertion) ∧
      ∀ before insertion,
        match? before (a ++ '\n' :: (w ++ b)) insertion = match? before (a ++ '\n' :: b) insertion := by
  have hn := normalForm_reindent a hw b
  have hl := trimLeft_lastLine_reindent a hw b
  constructor
  case left =>
    intro stored insertion
    rw [match?, match?, judge_congr_before hn hl]
  case right =>
    intro before insertion
    -- the insertion stands behind either text, so it goes on as that text does
    have hj : normalForm (a ++ '\n' :: (w ++ b) ++ insertion) = normalForm (a ++ '\n' :: b ++ insertion) := by
      have := normalForm_reindent a hw (b ++ insertion)
      simpa using this
    rw [match?, match?, judge_congr_stored hn hj hl]

-- A blank line and other indentation, typed behind the text that was stored or stored with it.
theorem match?_reindent_body :
    allBlank "\n  ".toList = true ∧
      match? "def f():\n\n  ret".toList "def f():\n    ".toList "return 1".toList = some ⟨0, 3, 3⟩ ∧
      match? "def f():\nret".toList "def f():\n\n  ".toList "return 1".toList = some ⟨0, 3, 3⟩ := by
  have hw : allBlank "\n  ".toList = true := by decide
  have htyped := (match?_reindent "def f():".toList "ret".toList "\n  ".toList hw).1
    "def f():\n    ".toList "return 1".toList
  have hstored := (match?_reindent "def f():".toList [] "\n  ".toList hw).2 "def f():\nret".toList "return 1".toList
  exact ⟨hw, htyped.trans (by decide), hstored.trans (by decide)⟩

end Bounds
end GhostText
