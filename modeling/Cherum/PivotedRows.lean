import Cherum.TimeSeries

/-! What `pivot` makes of a database whose series were written in time order: one
table for each combination of measurement and tags, and in it one row for each
entry, with all its fields, in the order of the times. -/

namespace Cherum.TimeSeries

variable {α β γ : Type*}

theorem dedup_sort_pairwise [LinearOrder α] [DecidableEq α] [DecidableLE α] (l : List α) :
    (l.dedup.insertionSort (· ≤ ·)).Pairwise (· < ·) := by
  have hle : (l.dedup.insertionSort (· ≤ ·)).Pairwise (· ≤ ·) := List.pairwise_insertionSort _ _
  have hnodup : (l.dedup.insertionSort (· ≤ ·)).Nodup :=
    (List.perm_insertionSort (· ≤ ·) l.dedup).nodup_iff.mpr (List.nodup_dedup l)
  exact (hle.and hnodup).imp fun hab => lt_of_le_of_ne hab.1 hab.2

theorem dedup_sort_eq [LinearOrder α] [DecidableEq α] [DecidableLE α] {l m : List α}
    (h : ∀ x, x ∈ l ↔ x ∈ m) (hm : m.Pairwise (· < ·)) : l.dedup.insertionSort (· ≤ ·) = m := by
  apply (dedup_sort_pairwise l).eq_of_mem_iff hm
  intro x
  rw [List.mem_insertionSort, List.mem_dedup, h]

theorem sort_desc_eq {rows : List (ℤ × γ)} (h : rows.Pairwise fun a b => a.1 < b.1) :
    rows.insertionSort (fun a b => b.1 ≤ a.1) = rows.reverse := by
  have hperm := List.perm_insertionSort (fun a b : ℤ × γ => b.1 ≤ a.1) rows
  have hle : (rows.insertionSort fun a b => b.1 ≤ a.1).Pairwise fun a b => b.1 ≤ a.1 :=
    List.pairwise_insertionSort _ _
  have hne : (rows.insertionSort fun a b => b.1 ≤ a.1).Pairwise fun a b => a.1 ≠ b.1 :=
    (h.imp fun hab => hab.ne).perm hperm.symm fun hab => hab.symm
  have hlt : (rows.insertionSort fun a b => b.1 ≤ a.1).Pairwise fun a b => b.1 < a.1 :=
    (hle.and hne).imp fun hab => lt_of_le_of_ne hab.1 hab.2.symm
  have hreverse : rows.reverse.Pairwise fun a b => b.1 < a.1 := List.pairwise_reverse.mpr h
  have : Std.Irrefl fun a b : ℤ × γ => b.1 < a.1 := ⟨fun a => lt_irrefl a.1⟩
  have : Std.Asymm fun a b : ℤ × γ => b.1 < a.1 := ⟨fun _ _ => lt_asymm⟩
  apply hlt.eq_of_mem_iff hreverse
  intro row
  rw [hperm.mem_iff, List.mem_reverse]

def tableRows (table : List (Cell β)) : List (ℤ × List (String × β)) :=
  ((table.map Cell.time).dedup.insertionSort (· ≤ ·)).map fun time =>
    (time, (table.filter fun c => c.time = time).map fun c => (c.field, c.value))

theorem pivot_eq_tableRows (cs : List (Cell β)) :
    pivot cs = (tablesBy Cell.tagRank cs).map tableRows := rfl

def Entry.row (e : Entry β) : ℤ × List (String × β) := (e.time, e.fields)

def Entry.tagRank (e : Entry β) : List String := e.measurement :: e.tags.flatMap fun tag => [tag.1, tag.2]

theorem Entry.series_of_tagRank {a b : Entry β} (h : a.tagRank = b.tagRank) : a.series = b.series := by
  obtain ⟨hmeasurement, htags⟩ := List.cons.inj h
  exact Prod.ext hmeasurement (tags_of_flatMap htags)

theorem Entry.fields_of_cells (e : Entry β) : e.cells.map (fun c => (c.field, c.value)) = e.fields := by
  rw [Entry.cells, List.map_map]
  exact List.map_id _

theorem filter_time {db : List (Entry β)} (hordered : db.Pairwise fun a b => a.time < b.time)
    {e : Entry β} (he : e ∈ db) : db.filter (fun q => q.time = e.time) = [e] := by
  obtain ⟨earlier, later, hsplit⟩ := List.append_of_mem he
  rw [hsplit] at hordered ⊢
  obtain ⟨_, hlater, hcross⟩ := List.pairwise_append.mp hordered
  have hafter := (List.pairwise_cons.mp hlater).1
  have hnone : later.filter (fun q => q.time = e.time) = [] := by
    refine List.filter_eq_nil_iff.mpr fun q hq htime => ?_
    exact (hafter q hq).ne (of_decide_eq_true htime).symm
  have hnone' : earlier.filter (fun q => q.time = e.time) = [] := by
    refine List.filter_eq_nil_iff.mpr fun q hq htime => ?_
    exact (hcross q hq e List.mem_cons_self).ne (of_decide_eq_true htime)
  simp [List.filter_append, hnone, hnone']

theorem tableRows_cells {db : List (Entry β)} (hordered : db.Pairwise fun a b => a.time < b.time)
    (hfields : ∀ e ∈ db, e.fields ≠ []) : tableRows (cells db) = db.map Entry.row := by
  have hmem : ∀ t, t ∈ (cells db).map Cell.time ↔ t ∈ db.map Entry.time := by
    intro t
    constructor
    · intro ht
      obtain ⟨c, hc, hct⟩ := List.mem_map.mp ht
      obtain ⟨e, he, hce⟩ := List.mem_flatMap.mp hc
      exact List.mem_map.mpr ⟨e, he, by rw [← hct, Entry.time_of_cell hce]⟩
    · intro ht
      obtain ⟨e, he, het⟩ := List.mem_map.mp ht
      obtain ⟨field, hfield⟩ := List.exists_mem_of_ne_nil _ (hfields e he)
      have hcell := Entry.mem_cells.mpr ⟨field, hfield, rfl⟩
      exact List.mem_map.mpr ⟨_, List.mem_flatMap.mpr ⟨e, he, hcell⟩, het⟩
  rw [tableRows, dedup_sort_eq hmem (List.pairwise_map.mpr hordered), List.map_map]
  refine List.map_congr_left fun e he => ?_
  have hselect : (cells db).filter (fun c => c.time = e.time) =
      cells (db.filter fun q => q.time = e.time) :=
    cells_filter fun q _ c hc => by rw [Entry.time_of_cell hc]
  have hone : cells [e] = e.cells := List.flatMap_singleton _ e
  simp only [Function.comp_apply, hselect, filter_time hordered he, hone, Entry.fields_of_cells,
    Entry.row]

/-- The pivot of series in time order. -/
theorem pivot_rows {db : List (Entry β)}
    (hordered : db.Pairwise fun a b => a.series = b.series → a.time < b.time)
    (hfields : ∀ e ∈ db, e.fields ≠ []) :
    pivot (cells db) = ((db.map Entry.tagRank).dedup.insertionSort (· ≤ ·)).map fun r =>
      (db.filter fun e => e.tagRank = r).map Entry.row := by
  have hrank : ∀ e : Entry β, ∀ c ∈ e.cells, c.tagRank = e.tagRank := by
    intro e c hc
    obtain ⟨field, _, hfield⟩ := Entry.mem_cells.mp hc
    rw [← hfield]
    rfl
  have hranks : ((cells db).map Cell.tagRank).dedup.insertionSort (· ≤ ·) =
      (db.map Entry.tagRank).dedup.insertionSort (· ≤ ·) := by
    apply dedup_sort_eq _ (dedup_sort_pairwise _)
    intro r
    rw [List.mem_insertionSort, List.mem_dedup]
    constructor
    · intro hr
      obtain ⟨c, hc, hcr⟩ := List.mem_map.mp hr
      obtain ⟨e, he, hce⟩ := List.mem_flatMap.mp hc
      exact List.mem_map.mpr ⟨e, he, by rw [← hcr, hrank e c hce]⟩
    · intro hr
      obtain ⟨e, he, her⟩ := List.mem_map.mp hr
      obtain ⟨field, hfield⟩ := List.exists_mem_of_ne_nil _ (hfields e he)
      have hcell := Entry.mem_cells.mpr ⟨field, hfield, rfl⟩
      exact List.mem_map.mpr ⟨_, List.mem_flatMap.mpr ⟨e, he, hcell⟩, (hrank e _ hcell).trans her⟩
  rw [pivot_eq_tableRows, tablesBy, hranks, List.map_map]
  refine List.map_congr_left fun r _ => ?_
  have hselect : (cells db).filter (fun c => c.tagRank = r) =
      cells (db.filter fun e => e.tagRank = r) :=
    cells_filter fun e _ c hc => by rw [hrank e c hc]
  rw [Function.comp_apply, hselect]
  refine tableRows_cells ?_ fun e he => hfields e (List.mem_filter.mp he).1
  refine (hordered.filter _).imp_of_mem fun {a b} ha hb hab => hab ?_
  have ha := of_decide_eq_true (List.mem_filter.mp ha).2
  have hb := of_decide_eq_true (List.mem_filter.mp hb).2
  exact Entry.series_of_tagRank (ha.trans hb.symm)

end Cherum.TimeSeries
