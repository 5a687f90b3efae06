import RefinementTables.Fault
import RefinementTables.Proofs.Text.Words

/-!
The line that is shown for a failed run.

`report_one_line`: it is one line, it begins with the class of the fault, and behind
that it has the words of the message, whatever texts went into them.
-/

namespace RefinementTables.Fault

open Text

theorem lineFeed_not_mem_kind (f : Fault) : '\n' ∉ f.kind.toList := by
  cases f <;> simp only [kind] <;> decide

/-- The report of a fault has no line break in it. Behind the class of the fault comes
its message, in which only white space is altered: both are the same if all white space
is deleted, and the words are the same one by one. -/
theorem report_one_line (f : Fault) :
    '\n' ∉ f.report.toList ∧
    ∃ line, f.report = "error: " ++ f.kind ++ ": " ++ line ∧
      ink line.toList = ink f.message.toList ∧ words line.toList = words f.message.toList := by
  have report : f.report = "error: " ++ f.kind ++ ": " ++ oneLine f.message := rfl
  have kept := words_oneLine f.message
  refine ⟨?_, oneLine f.message, report, ?_, kept⟩
  · rw [report]
    simp only [String.toList_append, List.mem_append, not_or]
    exact ⟨⟨⟨by decide, f.lineFeed_not_mem_kind⟩, by decide⟩, lineFeed_not_mem_oneLine _⟩
  · rw [← flatten_words, kept, flatten_words]

example : (settings (.described "first\n\n  second\n")).report =
    "error: ConfigError: first second" := by
  decide +kernel

end RefinementTables.Fault
