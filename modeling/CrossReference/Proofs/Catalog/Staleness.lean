import CrossReference.Proofs.Catalog.Accounting

/-!
# Links that are out of date

A flag says whether there is something to link. It is raised when the clauses change, and a linking
that finds it down does nothing. But what a clause asks for also depends on the symbols, and a
symbol that comes or goes does not raise the flag. So the links are those that the symbols gave when
the clauses were linked last, and they may differ from what the symbols would give now.

* `Catalog.Accounts.apply` is the step lemma: a change that leaves the flag down leaves all clauses
  accounted for as they were. `Catalog.accounts_after` is the run lemma.
* `Catalog.LinkedLast` cuts a sequence of changes where the clauses were linked last, and
  `Catalog.LinkedLast.unique` says that there is no other place to cut it.
* `Catalog.links_as_last_resolved` says which links there are after any changes.
* `Catalog.declared_parent_not_linked` is a link that a declaration puts out of date.
-/

namespace CrossReference
namespace Catalog

/-! ## One change -/

/-- Only linking lowers the flag. -/
theorem stale_of_apply {c : Catalog} {change : Change} (h : (c.apply change).stale = false) :
    c.stale = false ∨ change = .link := by
  cases change with
  | link => exact .inr rfl
  | relate child parent relation =>
      rw [apply_relate] at h
      exact .inl h
  | removeFile file => exact .inl (Bool.or_eq_false_iff.1 h).1
  | setClauses file clauses => exact absurd h (by simp [apply, setClauses])
  | declare s => exact .inl h
  | setAncestorLimit limit => exact .inl h

/-- If a file has no clauses on record, its removal leaves all clauses there. -/
theorem allClauses_removeFile {c : Catalog} {file : FileId} (h : c.clauses.contains file = false) :
    (c.removeFile file).allClauses = c.allClauses := by
  have hnew : file ∉ c.clauses.keys := by
    rw [OrderedMap.mem_keys_iff, h]
    simp
  exact congrArg (List.flatMap _) (OrderedMap.entries_erase_of_new hnew)

/-- A change that finds the flag down and leaves it down changes neither the clauses nor what they
were judged to be. -/
theorem Accounts.apply {c : Catalog} {resolve : Candidates → Option String}
    (h : Accounts resolve c.allClauses (c.graph, c.rejected)) (change : Change)
    (hdown : c.stale = false) (hdown' : (c.apply change).stale = false) :
    Accounts resolve (c.apply change).allClauses
      ((c.apply change).graph, (c.apply change).rejected) := by
  cases change with
  | relate child parent relation =>
      rw [apply_relate]
      exact h.mono (h.wellFormed.insert child parent relation none)
        fun e he => h.wellFormed.indexed.mem_edges_insert he child parent relation none
  | link =>
      have hlink : c.apply .link = c := if_neg (by simp [hdown])
      rw [hlink]
      exact h
  | removeFile file =>
      have hfile : c.clauses.contains file = false := (Bool.or_eq_false_iff.1 hdown').2
      rw [show c.apply (.removeFile file) = c.removeFile file from rfl, allClauses_removeFile hfile]
      exact h
  | setClauses file clauses => exact absurd hdown' (by simp [Catalog.apply, setClauses])
  | declare s => exact h
  | setAncestorLimit limit => exact h

/-! ## A sequence of changes -/

/-- The flag is down after the `earlier` changes and stays down over all `later` ones. -/
def DownSince (earlier later : List Change) : Prop :=
  ∀ more, more <+: later → (after (earlier ++ more)).stale = false

theorem DownSince.concat {earlier later : List Change} (h : DownSince earlier later)
    {change : Change} (hdown : (after (earlier ++ (later ++ [change]))).stale = false) :
    DownSince earlier (later ++ [change]) := by
  intro more hmore
  rcases List.prefix_concat_iff.1 hmore with rfl | hmore
  · exact hdown
  · exact h more hmore

/-- The clauses are linked last between the `earlier` and the `later` changes, when changes are
followed by a linking. -/
inductive LinkedLast : List Change → List Change → Prop
  /-- The linking that follows finds the flag up. -/
  | now {earlier : List Change} (hup : (after earlier).stale = true) : LinkedLast earlier []
  /-- A linking found the flag up, and it has been down since. -/
  | before {earlier rest : List Change} (hup : (after earlier).stale = true)
      (hdown : DownSince (earlier ++ [.link]) rest) : LinkedLast earlier (.link :: rest)
  /-- The flag has never been up. -/
  | never {earlier : List Change} (hdown : DownSince [] earlier) : LinkedLast earlier []

/-- One of two cuts cannot come after the other: the flag would have to be down where it is up. -/
theorem LinkedLast.eq_nil_of_append {earlier later between : List Change}
    (h : LinkedLast earlier (between ++ later)) (h' : LinkedLast (earlier ++ between) later) :
    between = [] := by
  cases between with
  | nil => rfl
  | cons change between =>
      cases h with
      | before hup hdown =>
          have hbetween : (after (earlier ++ .link :: between)).stale = false := by
            have hdown := hdown between (List.prefix_append between later)
            rwa [List.append_assoc, List.singleton_append] at hdown
          cases h' with
          | now hup' => exact absurd (hup'.symm.trans hbetween) (by simp)
          | before hup' _ => exact absurd (hup'.symm.trans hbetween) (by simp)
          | never hdown' =>
              have hnever := hdown' earlier (List.prefix_append _ _)
              exact absurd (hup.symm.trans hnever) (by simp)

/-- There is one place where the clauses are linked last. -/
theorem LinkedLast.unique {earlier later earlier' later' : List Change}
    (h : LinkedLast earlier later) (h' : LinkedLast earlier' later')
    (heq : earlier ++ later = earlier' ++ later') : earlier = earlier' ∧ later = later' := by
  rcases List.append_eq_append_iff.1 heq with ⟨between, rfl, rfl⟩ | ⟨between, rfl, rfl⟩
  · rw [h.eq_nil_of_append h']
    simp
  · rw [h'.eq_nil_of_append h]
    simp

/-- When the flag is down, it has never been up and there is nothing to account for, or all clauses
are accounted for by what the symbols gave when they were linked last. -/
theorem accounts_after (changes : List Change) (hdown : (after changes).stale = false) :
    let c := after changes
    (DownSince [] changes ∧ ∀ resolve, Accounts resolve c.allClauses (c.graph, c.rejected)) ∨
      ∃ earlier rest, changes = earlier ++ .link :: rest ∧ (after earlier).stale = true ∧
        DownSince (earlier ++ [.link]) rest ∧
        Accounts (after earlier).resolve? c.allClauses (c.graph, c.rejected) := by
  induction changes using List.reverseRecOn with
  | nil =>
      refine .inl ⟨fun more hmore => ?_, fun resolve => accounts_linkFresh resolve []⟩
      rw [List.prefix_nil.1 hmore]
      exact hdown
  | append_singleton changes change ih =>
      have hstep := after_concat changes change
      cases hbefore : (after changes).stale with
      | true =>
          -- Nothing but this linking can have lowered the flag.
          obtain rfl : change = .link :=
            (stale_of_apply (hstep ▸ hdown)).resolve_left (by simp [hbefore])
          refine .inr ⟨changes, [], rfl, hbefore, fun more hmore => ?_, ?_⟩
          · rw [List.prefix_nil.1 hmore, List.append_nil]
            exact hdown
          · rw [hstep, show (after changes).apply .link = (after changes).link from rfl,
              allClauses_link]
            exact (accounts_link (wellFormed_after changes) hbefore).1
      | false =>
          rcases ih hbefore with ⟨hnever, hall⟩ | ⟨earlier, rest, rfl, hup, hsince, haccounts⟩
          · refine .inl ⟨hnever.concat hdown, ?_⟩
            rw [hstep] at hdown ⊢
            exact fun resolve => (hall resolve).apply change hbefore hdown
          · refine .inr ⟨earlier, rest ++ [change], by simp, hup, hsince.concat ?_, ?_⟩
            · simpa using hdown
            · rw [hstep] at hdown ⊢
              exact haccounts.apply change hbefore hdown

/-- After any changes and a linking, all clauses are accounted for by what the symbols gave when
they were linked last. -/
theorem exists_linkedLast (changes : List Change) :
    let c := (after changes).link
    ∃ earlier later, changes = earlier ++ later ∧ LinkedLast earlier later ∧
      Accounts (after earlier).resolve? c.allClauses (c.graph, c.rejected) := by
  intro c
  rw [show c.allClauses = _ from allClauses_link _]
  cases hstale : (after changes).stale with
  | true =>
      exact ⟨changes, [], by simp, .now hstale,
        (accounts_link (wellFormed_after changes) hstale).1⟩
  | false =>
      have hsame : c = after changes := if_neg (by simp [hstale])
      rw [hsame]
      rcases accounts_after changes hstale with
        ⟨hnever, hall⟩ | ⟨earlier, rest, heq, hup, hsince, haccounts⟩
      · exact ⟨changes, [], by simp, .never hnever, hall _⟩
      · exact ⟨earlier, .link :: rest, heq, .before hup hsince, haccounts⟩

/-- Whether a change leaves the symbols as they are. -/
def Change.keepsSymbols : Change → Bool
  | .declare _ => false
  | .removeFile _ => false
  | _ => true

theorem resolve?_apply (c : Catalog) {change : Change} (h : change.keepsSymbols = true) :
    (c.apply change).resolve? = c.resolve? := by
  cases change with
  | relate child parent relation =>
      exact resolve?_congr (c.symbols_apply_relate child parent relation).1
  | link => exact c.resolve?_link
  | setClauses file clauses => rfl
  | setAncestorLimit limit => rfl
  | declare s => exact absurd h (by simp [Change.keepsSymbols])
  | removeFile file => exact absurd h (by simp [Change.keepsSymbols])

theorem resolve?_after_append (earlier : List Change) {later : List Change}
    (h : ∀ change ∈ later, change.keepsSymbols = true) :
    (after (earlier ++ later)).resolve? = (after earlier).resolve? := by
  induction later using List.reverseRecOn with
  | nil => rw [List.append_nil]
  | append_singleton later change ih =>
      rw [← List.append_assoc, after_concat, resolve?_apply _ (h change (by simp))]
      exact ih fun change' hmem => h change' (List.mem_append_left _ hmem)

/-- After any changes and a linking, the links are those that the symbols gave when the clauses were
linked last, and there is one such point: each clause whose parent has candidates has an edge to
what these stood for then, or it is refused, and not both. This is also what the candidates stand
for now if no symbol was declared and no file removed since. -/
theorem links_as_last_resolved (changes : List Change) :
    let c := (after changes).link
    ∃ earlier later, changes = earlier ++ later ∧ LinkedLast earlier later ∧
      (∀ earlier' later', changes = earlier' ++ later' → LinkedLast earlier' later' →
        earlier' = earlier ∧ later' = later) ∧
      ((∀ change ∈ later, change.keepsSymbols = true) →
        (after earlier).resolve? = c.resolve?) ∧
      ∀ file clause, (file, clause) ∈ c.allClauses → clause.parent ≠ [] →
        ∃ parent, (after earlier).resolve? clause.parent = some parent ∧
          Xor (c.graph.Ties clause.child parent clause.relation)
            (∃ r ∈ c.rejected, r.file = file ∧ r.line = clause.line ∧
              c.graph.Refuses clause.child parent clause.relation r.reason) := by
  intro c
  obtain ⟨earlier, later, heq, hlast, haccounts⟩ := exists_linkedLast changes
  refine ⟨earlier, later, heq, hlast, ?_, ?_, ?_⟩
  · intro earlier' later' heq' hlast'
    exact hlast'.unique hlast (heq'.symm.trans heq)
  · intro hkeep
    rw [show c.resolve? = _ from resolve?_link _, heq, resolve?_after_append earlier hkeep]
  · intro file clause hmem hne
    obtain ⟨parent, hparent⟩ := (after earlier).exists_resolve? hne
    exact ⟨parent, hparent, haccounts.xor hmem hparent⟩

/-- A class is linked to the first candidate of its parent while none of them is declared, and then
the second candidate is declared. -/
def overtaken : List Change :=
  [.setClauses ⟨0⟩
    [{ child := "App\\Circle", parent := ["App\\Shape", "Shape"], relation := .extending }],
   .link,
   .declare (.ofName (.type .classDecl) "Shape" ⟨1⟩)]

/-- Another linking does not bring the link up to date, although the clause is not refused. -/
theorem declared_parent_not_linked :
    let c := (after overtaken).link
    c.allClauses = [(⟨0⟩, ⟨"App\\Circle", ["App\\Shape", "Shape"], .extending, 0⟩)] ∧
      c.rejected = [] ∧ c.resolve? ["App\\Shape", "Shape"] = some "Shape" ∧
      ¬ c.graph.Ties "App\\Circle" "Shape" .extending ∧
      c.graph.Ties "App\\Circle" "App\\Shape" .extending := by
  decide +kernel

end Catalog
end CrossReference
