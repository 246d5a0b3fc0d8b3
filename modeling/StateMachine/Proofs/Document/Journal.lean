/-
# Journals survive their documents

A plain moment survives, so an entry does if a machine word holds its index, and so does a journal
of such entries: its start and the texts of its moves may be any.
-/

import StateMachine.Document.Journal
import StateMachine.Proofs.Document.Basic
import StateMachine.Proofs.Time.Timestamp

namespace StateMachine

/-- Every index fits in a machine word, and every moment is plain. -/
def Journal.Plain (j : Journal) : Prop :=
  ∀ e ∈ j.entries, e.move.index < Json.wordBound ∧ e.time.Plain

namespace Document

/-- A plain timestamp survives. -/
theorem survives_timestamp {t : Timestamp} (ht : t.Plain) : Survives t :=
  ⟨bind_eq_some (Json.string?_ofString _) (Timestamp.read?_write ht), Json.wellFormed_ofString _⟩

/-- An entry survives if a machine word holds its index and its timestamp is plain. -/
theorem survives_entry {e : Entry} (hindex : e.move.index < Json.wordBound) (htime : e.time.Plain) :
    Survives e := by
  have hsource := survives_string e.move.source
  have htarget := survives_string e.move.target
  have hindex := survives_nat hindex
  have htime := survives_timestamp htime
  refine ⟨?_, Json.wellFormed_ofMembers ?_⟩
  · exact bind_eq_some (Json.fields?_ofMembers (by decide) (.refl _)) <|
      bind_eq_some (hsource.required_eq rfl) <|
      bind_eq_some (htarget.required_eq rfl) <|
      bind_eq_some (hindex.required_eq rfl) <|
      bind_eq_some (htime.required_eq rfl) rfl
  · simp only [List.forall_mem_cons]
    exact ⟨hsource.wellFormed, htarget.wellFormed, hindex.wellFormed, htime.wellFormed,
      List.forall_mem_nil _⟩

/-- A plain journal survives, as its entries do. -/
theorem survives_journal {j : Journal} (hj : j.Plain) : Survives j := by
  have hstart := survives_string j.start
  have hentries : Survives j.entries := survives_list fun e he =>
    survives_entry (hj e he).1 (hj e he).2
  refine ⟨?_, Json.wellFormed_ofMembers ?_⟩
  · exact bind_eq_some (Json.fields?_ofMembers (by decide) (.refl _)) <|
      bind_eq_some (hstart.required_eq rfl) <|
      bind_eq_some (hentries.required_eq rfl) rfl
  · simp only [List.forall_mem_cons]
    exact ⟨hstart.wellFormed, hentries.wellFormed, List.forall_mem_nil _⟩

end Document

/-- **A journal survives its document,** and no other journal has the same one. -/
theorem journal_read_render {j : Journal} (hj : j.Plain) :
    Document.read (Document.render .compact j) = some j ∧
      ∀ j' : Journal, j'.Plain →
        Document.render .compact j' = Document.render .compact j → j' = j :=
  have hsurvives := Document.survives_journal hj
  ⟨hsurvives.read_render .compact,
    fun _ hj' h => (Document.survives_journal hj').eq_of_render_eq hsurvives h⟩

/-- Texts with a quote and a control character, the greatest index, and a moment before 1970. -/
theorem journal_read_render_quoted :
    let j : Journal :=
      ⟨"\"", [⟨⟨"\"", "\x01", 18446744073709551615⟩, ⟨-1, 500000000⟩⟩]⟩
    j.Plain ∧ Document.read (Document.render .compact j) = some j := by
  intro j
  have hj : j.Plain := by
    intro e he
    obtain rfl := List.mem_singleton.1 he
    exact ⟨by decide, (Timestamp.plain_iff _).2 (by decide)⟩
  exact ⟨hj, (journal_read_render hj).1⟩

end StateMachine
