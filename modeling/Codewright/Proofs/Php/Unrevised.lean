import Codewright.Php.Revision
import Codewright.Php.Summary
import Codewright.Proofs.Php.CastWords

/-!
# Revising nothing

Without revisions a source is read and printed, and that is all. It always succeeds and never warns; what is printed
need not declare what the source declares, for the printed text of some trees cannot be read.

* `reviseSource_nil` – the text that no revisions leave;
* `KeepsSummary` – revising nothing keeps the summary of a source; `not_keepsSummary` – not of every source.
-/

namespace Codewright.Php

/-- Without revisions, a source that can be read is printed anew, with no warning. -/
theorem reviseSource_nil {source : String} {f : File} (h : parse source = .ok f) (indent : String) :
    reviseSource indent source [] = .ok ⟨f.print indent, []⟩ := by
  rw [reviseSource, h]
  rfl

/-- Revising nothing keeps what the source declares, if the source can be read. -/
def KeepsSummary (source : String) : Prop :=
  ∀ f, parse source = .ok f →
    ∃ text, reviseSource usualIndent source [] = .ok ⟨text, []⟩ ∧ ∃ f', parse text = .ok f' ∧ f'.summary = f.summary

/-- A text that cannot be read declares nothing. -/
theorem not_keepsSummary_of_isLostByPrinting {source : String} (h : isLostByPrinting source = true) :
    ¬KeepsSummary source := by
  obtain ⟨f, read, lost⟩ := exists_of_isLostByPrinting h
  intro keeps
  obtain ⟨text, revised, f', again, -⟩ := keeps f read
  rw [reviseSource_nil read] at revised
  cases revised
  exact lost f' again

end Codewright.Php
