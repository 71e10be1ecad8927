import TripleChain.Proofs.Laws
import TripleChain.Proofs.ReadingSafety
import TripleChain.Proofs.Soundness
/-!
# Where variables come in

To be bound to anything but a variable is a law that every match upholds: what fills a variable through a match is a
constant or comes from a variable that is bound itself. The binding reader refuses variables. Only the cells of a table
are read as terms of any kind, and so they are where a variable comes in: a store stays ground exactly as far as its
tables are (`RuleStore.staysGround_iff`). `RuleStore.variable_cell_answers` is a table that is accepted and makes a goal
answer with a variable.
-/

open Std

namespace TripleChain

/-- To be bound to anything but a variable. -/
abbrev Law.ground : Law := fun _ t => t.isVariable = false

abbrev BindingSet.Ground (s : BindingSet) : Prop := s.Obeys Law.ground

def Table.Ground (t : Table) : Prop := t.rows.Ground

/-- Whatever any node is asked for, has been given or has given is ground. -/
def Plan.Ground (p : Plan) : Prop := ∀ id, (p.progressOf id).Obeys Law.ground

theorem Match.upholds_ground (m : Match) : m.Upholds Law.ground := ⟨fun _ _ _ _ _ _ _ _ h => h, fun _ _ _ _ h _ => h⟩

/-! ## What is read as bindings -/

namespace Grammar

variable {p : Prefixes} {whole cs rest : List Char}

/-- A variable is refused as a value. -/
theorem readPair_ground {e : Variable × Term} (h : readPair p whole cs = .ok (e, rest)) : e.2.isVariable = false := by
  unfold readPair at h
  split at h
  · cases h
  · split at h
    · dsimp only at h
      split at h
      · cases h
      · split at h
        · cases h
        · next hvariable =>
          cases h
          exact Bool.not_eq_true _ ▸ hvariable
    · cases h

theorem readPairs_ground {before b : Binding} (hbefore : before.Obeys Law.ground)
    (h : readPairs p whole before cs = .ok (b, rest)) : b.Obeys Law.ground := by
  fun_induction readPairs p whole before cs with
  | case1 =>
    cases h
    exact hbefore
  | case2 => cases h
  | case3 _ _ _ _ _ _ hpair =>
    cases h
    exact hbefore.insert (readPair_ground hpair)
  | case4 _ _ _ _ _ _ hpair _ _ ih => exact ih (hbefore.insert (readPair_ground hpair)) h
  | case5 _ _ _ _ _ _ hpair =>
    cases h
    exact hbefore.insert (readPair_ground hpair)
  | case6 => cases h

theorem readBindings_ground {before found : BindingSet} (hbefore : before.Ground)
    (h : readBindings p whole before cs = .ok found) : found.Ground := by
  fun_induction readBindings p whole before cs with
  | case1 =>
    cases h
    exact hbefore
  | case2 => cases h
  | case3 _ _ _ _ _ hpairs ih => exact ih (hbefore.insert (readPairs_ground Binding.obeys_empty hpairs)) h
  | case4 _ _ _ _ _ _ hpairs =>
    cases h
    exact hbefore.insert (readPairs_ground Binding.obeys_empty hpairs)

/-- What is read as a binding set is ground. -/
theorem parseBindings_ground {text : String} {found : BindingSet} (h : parseBindings p text = .ok found) :
    found.Ground :=
  readBindings_ground BindingSet.obeys_empty h

end Grammar

/-! ## What is read as a table -/

namespace Table

variable {p : Prefixes} {columns : List Variable} {number : Nat} {row : String} {b : Binding}

/-- No cell of the rows is read as a variable. -/
def CellsGround (p : Prefixes) (rows : List String) : Prop :=
  ∀ row ∈ rows, ∀ cell ∈ splitCells row.toList, ∀ v,
    Grammar.parseTerm p (String.ofList (Text.trim cell)) ≠ .ok (.var v)

theorem readCell_eq_ok {cell : List Char} {t : Term} :
    readCell p number cell = .ok t ↔ Grammar.parseTerm p (String.ofList (Text.trim cell)) = .ok t := by
  unfold readCell
  cases Grammar.parseTerm p (String.ofList (Text.trim cell)) <;> simp [Except.mapError]

theorem readRow_eq_ok : readRow p columns number row = .ok b ↔ (splitCells row.toList).length = columns.length ∧
    ∃ terms, (splitCells row.toList).mapM (readCell p number) = .ok terms ∧ Binding.ofList (columns.zip terms) = b := by
  unfold readRow
  dsimp only
  split
  · next h => simp [h]
  · next h => rw [Except.map_eq_ok, and_iff_right (not_not.1 h)]

/-- A row binds its columns to what its cells are read as, the last counting where columns have one name. -/
theorem exists_cell_of_readRow {v : Variable} {t : Term} (h : readRow p columns number row = .ok b)
    (hv : b.get? v = some t) :
    ∃ cell ∈ splitCells row.toList, Grammar.parseTerm p (String.ofList (Text.trim cell)) = .ok t := by
  obtain ⟨_, terms, hterms, rfl⟩ := readRow_eq_ok.1 h
  have hmem := SortedMap.mem_of_mem_ofList (SortedMap.get?_eq_some_iff.1 hv)
  obtain ⟨cell, hcell, hread⟩ := ((mem_of_mapM_ok hterms).1 t).1 (List.of_mem_zip hmem).2
  exact ⟨cell, hcell, readCell_eq_ok.1 hread⟩

/-- Where all columns have different names, every cell counts. -/
theorem exists_get?_of_readRow {cell : List Char} {t : Term} (h : readRow p columns number row = .ok b)
    (hcolumns : columns.Nodup) (hcell : cell ∈ splitCells row.toList)
    (ht : Grammar.parseTerm p (String.ofList (Text.trim cell)) = .ok t) : ∃ v, b.get? v = some t := by
  obtain ⟨hlength, terms, hterms, rfl⟩ := readRow_eq_ok.1 h
  rw [← length_of_mapM_ok hterms] at hlength
  obtain ⟨i, hi, rfl⟩ := List.mem_iff_getElem.1 (((mem_of_mapM_ok hterms).1 t).2 ⟨cell, hcell, readCell_eq_ok.2 ht⟩)
  have hkeys : ((columns.zip terms).map Prod.fst).Nodup := by
    rwa [List.map_fst_zip (Nat.le_of_eq hlength.symm)]
  have hmem : (columns[i], terms[i]) ∈ columns.zip terms := by
    rw [← List.getElem_zip (h := by simp; omega)]
    exact List.getElem_mem _
  exact ⟨columns[i], SortedMap.get?_eq_some_iff.2 ((SortedMap.mem_entries_ofList fun e he e' he' heq =>
    List.inj_on_of_nodup_map hkeys he he' heq).2 hmem)⟩

/-- A table is ground if no cell is read as a variable, and else it is not, unless columns have one name. -/
theorem ofRows_ground {columns rows : List String} {t : Table} (h : ofRows p columns rows = .ok t) :
    (CellsGround p rows → t.Ground) ∧
      ((columns.map Variable.ofName).Nodup → t.Ground → CellsGround p rows) := by
  unfold ofRows at h
  split at h
  · cases h
  obtain ⟨bs, hbs, rfl⟩ := Except.map_eq_ok.1 h
  obtain ⟨hmem, hall⟩ := mem_of_mapM_ok hbs
  refine ⟨fun hcells b hb v u hu => ?_, fun hcolumns hground row hrow cell hcell w hw => ?_⟩
  · obtain ⟨⟨row, number⟩, hrow, hread⟩ := (hmem b).1 (InsertionSet.mem_ofList.1 hb)
    obtain ⟨cell, hcell, hterm⟩ := exists_cell_of_readRow hread hu
    cases u with
    | var w => exact absurd hterm (hcells row (List.fst_mem_of_mem_zipIdx hrow) cell hcell w)
    | iri _ => rfl
    | literal _ => rfl
  · obtain ⟨i, hi, rfl⟩ := List.mem_iff_getElem.1 hrow
    have hnumbered : (rows[i], i) ∈ rows.zipIdx := List.mem_zipIdx_iff_getElem?.2 (List.getElem?_eq_getElem hi)
    obtain ⟨b, hread⟩ := hall _ hnumbered
    obtain ⟨v, hv⟩ := exists_get?_of_readRow hread hcolumns hcell hw
    exact nomatch hground b (InsertionSet.mem_ofList.2 ((hmem b).2 ⟨_, hnumbered, hread⟩)) v _ hv

end Table

/-! ## What comes out of a table -/

/-- The rules copy, look up in allowed tables, only take, or only start plans. -/
def RuleStore.DrawsOn (allowed : Table → Prop) (s : RuleStore) : Prop :=
  ∀ r ∈ s.rules, r.IsPlain ∧ ∀ t, r.role = .transform (.lookUp t) → allowed t

/-- Whatever a plan is started with, and whatever ground inputs it is given, it stays ground. -/
def RuleStore.StaysGround (s : RuleStore) : Prop :=
  ∀ id o p q, Plan.build s id o = .ok p → Plan.Led BindingSet.Ground p q → q.Ground

theorem Rule.upholds_ground {r : Rule} (hplain : r.IsPlain) (htable : ∀ t, r.role = .transform (.lookUp t) → t.Ground) :
    r.Upholds Law.ground where
  plain := hplain
  row b hb := by
    unfold Rule.rows at hb
    split at hb
    · next t hrole => exact htable t hrole b hb
    · cases hb

/-- With ground tables everything stays ground. -/
theorem RuleStore.staysGround_of_tables {s : RuleStore} (hs : s.DrawsOn Table.Ground) : s.StaysGround := by
  intro id o p q hbuild hled
  have hgraph : p.graph.Upholds Law.ground := by
    refine ⟨fun _ _ _ m _ => m.upholds_ground, fun x n hn => ?_⟩
    obtain ⟨hplain, htable⟩ := hs n.rule (Plan.build_rulesIn hbuild x n hn)
    exact Rule.upholds_ground hplain htable
  exact (hled.lawful (Plan.build_lawful hbuild hgraph) fun _ h => h).progress

/-- A goal, and a rule that looks a triple up in a table. -/
def RuleStore.lookingUp (goal given : Triple) (t : Table) : RuleStore :=
  ⟨[.asking (.singleton goal) rfl, ⟨none, ∅, .singleton given, .transform (.lookUp t), rfl⟩], [], by simp⟩

/-- A row comes out of its table as it is, even where nothing of it is asked for. -/
theorem RuleStore.exists_output {g : Triple} (hg : g.IsGround) {t : Table} {b : Binding} (hb : b ∈ t.rows) :
    ∃ p q d, Plan.build (.lookingUp g g t) 0 ⟨.all, true, 0⟩ = .ok p ∧ Plan.Runs ∅ p q ∧ b ∈ q.outputs d := by
  have hno (v : Variable) : v ∉ Pattern.vars (.singleton g) := fun hv => by
    obtain ⟨u, hu, hvu⟩ := Pattern.mem_vars.1 hv
    obtain ⟨i, hi⟩ := Triple.mem_vars.1 hvu
    have := hg i
    rw [← SortedSet.mem_singleton.1 hu, hi] at this
    cases this
  have hdata : Rule.IsData ⟨none, ∅, .singleton g, .transform (.lookUp t), rfl⟩ t :=
    ⟨rfl, rfl, fun _ _ v hv => absurd hv (hno v)⟩
  have hdeclarative : (RuleStore.lookingUp g g t).Declarative := by
    intro r hr
    rcases List.mem_pair.1 hr with rfl | rfl
    · exact .inl rfl
    · exact .inr (.inr ⟨t, hdata⟩)
  have hget : (RuleStore.lookingUp g g t).get 0 = .ok (.asking (.singleton g) rfl) := rfl
  obtain ⟨p, q, hp, hruns, hended⟩ := Plan.exists_ended hdeclarative hget rfl ⟨.all, true, 0⟩
  obtain ⟨n, hn, _⟩ := hended.graph.root
  have hrule : n.rule = .asking (.singleton g) rfl := Plan.start_rule hended.graph rfl hn
  have hmem : g ∈ n.rule.antecedent := by
    rw [hrule]
    exact SortedSet.mem_singleton.2 rfl
  obtain ⟨d, m, hm, hrule', hd, ⟨δ, hδ, hext, _⟩, _⟩ := hended.exists_producer (b := ∅) (β := b) hn
    (fun _ _ => findsPairs_all _ _) hmem (List.mem_pair.2 (.inr rfl)) rfl (SortedSet.mem_singleton.2 rfl)
    (by rw [Triple.instantiate_of_ground _ hg, Triple.instantiate_of_ground _ hg])
    (by rwa [Triple.instantiate_of_ground _ hg]) (hended.given ∅ (InsertionSet.mem_singleton.2 rfl)) fun _ _ h => h
  exact ⟨p, q, d, hp, hruns, hended.mem_outputs_of_row hm hd (hrule' ▸ hdata) hb hδ hext⟩

/-- All stores that draw on some tables stay ground exactly if the tables are. What is read as bindings is ground, as an
input and as a table; a table that is read row by row is ground as far as no cell is a variable. -/
theorem RuleStore.staysGround_iff (allowed : Table → Prop) :
    ((∀ s : RuleStore, s.DrawsOn allowed → s.StaysGround) ↔ ∀ t, allowed t → t.Ground) ∧
    (∀ p text found, Grammar.parseBindings p text = .ok found → found.Ground ∧ (Table.ofBindings found).Ground) ∧
    ∀ p columns rows t, Table.ofRows p columns rows = .ok t → (Table.CellsGround p rows → t.Ground) ∧
      ((columns.map Variable.ofName).Nodup → t.Ground → Table.CellsGround p rows) := by
  refine ⟨⟨fun hs t ht b hb v u hu => ?_, fun hallowed s hs => ?_⟩,
    fun p text found h => ⟨Grammar.parseBindings_ground h, Grammar.parseBindings_ground h⟩,
    fun p columns rows t h => Table.ofRows_ground h⟩
  · obtain ⟨g, hg⟩ : ∃ g : Triple, g.IsGround := ⟨⟨.iri "a", .iri "p", .iri "b"⟩, by decide⟩
    have hdraws : (RuleStore.lookingUp g g t).DrawsOn allowed := by
      intro r hr
      rcases List.mem_pair.1 hr with rfl | rfl
      · exact ⟨fun _ h => (nomatch h), fun _ h => (nomatch h)⟩
      · exact ⟨fun _ h => (nomatch h), fun _ h => by cases h; exact ht⟩
    obtain ⟨p, q, d, hp, hruns, hout⟩ := RuleStore.exists_output hg hb
    exact (hs _ hdraws 0 _ p q hp (.runs .refl BindingSet.obeys_empty hruns) d).output b hout v u hu
  · exact RuleStore.staysGround_of_tables fun r hr => ⟨(hs r hr).1, fun t ht => hallowed t ((hs r hr).2 t ht)⟩

/-- The goal `?x <p> ?y`, and a rule that tells `?s <p> ?o` from a table. -/
def RuleStore.telling (t : Table) : RuleStore :=
  .lookingUp ⟨.var ⟨"x"⟩, .iri "p", .var ⟨"y"⟩⟩ ⟨.var ⟨"s"⟩, .iri "p", .var ⟨"o"⟩⟩ t

/-- What the goal makes of a row with a variable. -/
def toldVariable : Binding := .ofList [(⟨"x"⟩, .var ⟨"v"⟩), (⟨"y"⟩, .iri "b")]

/-- A row with a variable in a cell is accepted, and the goal that is told the row is answered with the variable. -/
theorem RuleStore.variable_cell_answers : ∃ t p q, Table.ofRows .standard ["s", "o"] ["?v,<b>"] = .ok t ∧
    Plan.build (.telling t) 0 .standard = .ok p ∧ p.run 50 ∅ = .ok q ∧
    Binding.ofList [(⟨"x"⟩, .var ⟨"v"⟩), (⟨"y"⟩, .iri "b")] ∈ (q.progressOf Plan.start).output ∧
    ¬ (RuleStore.telling t).StaysGround := by
  have hends : (match Table.ofRows .standard ["s", "o"] ["?v,<b>"] with
      | .error _ => false
      | .ok t =>
        Plan.endsWith (.telling t) 0 .standard 50 fun q =>
          (q.progressOf Plan.start).output.contains toldVariable) = true := by
    decide +kernel
  split at hends
  · cases hends
  · next t ht =>
    obtain ⟨p, q, hp, hq, hb⟩ := Plan.exists_of_endsWith hends
    have hmem : toldVariable ∈ (q.progressOf Plan.start).output := InsertionSet.contains_iff.1 hb
    refine ⟨t, p, q, ht, hp, hq, hmem, fun hground => ?_⟩
    have hled : Plan.Led BindingSet.Ground p q := .runs .refl BindingSet.obeys_empty (Plan.runs_of_run hq)
    exact nomatch (hground 0 _ p q hp hled Plan.start).output _ hmem ⟨"x"⟩ (.var ⟨"v"⟩) (by decide)

end TripleChain
