import Mathlib

/-! A database of time series. An entry carries the fields of one measurement
at one time; a later entry of the same series and time replaces an earlier one.
A query works on the single field values: grouped into one table for each
measurement, field and combination of tags, the tables in the order of these,
it keeps the newest value of each table, or turns the fields of one combination
of tags into the columns of one row for each time. -/

namespace Cherum.TimeSeries

structure Entry (β : Type*) where
  measurement : String
  tags : List (String × String)
  fields : List (String × β)
  time : ℤ

variable {β : Type*}

namespace Entry

def series (e : Entry β) : String × List (String × String) := (e.measurement, e.tags)

def key (e : Entry β) : (String × List (String × String)) × ℤ := (e.series, e.time)

theorem series_of_key {a b : Entry β} (h : a.key = b.key) : a.series = b.series :=
  congrArg Prod.fst h

end Entry

def put (db : List (Entry β)) (e : Entry β) : List (Entry β) :=
  db.filter (fun q => q.key ≠ e.key) ++ [e]

def record (entries : List (Entry β)) : List (Entry β) := entries.foldl put []

def readSeries (series : String × List (String × String)) (db : List (Entry β)) : List (Entry β) :=
  (db.filter fun e => e.series = series).insertionSort fun a b => a.time ≤ b.time

theorem record_append_singleton (entries : List (Entry β)) (e : Entry β) :
    record (entries ++ [e]) = (record entries).filter (fun q => q.key ≠ e.key) ++ [e] := by
  rw [record, List.foldl_append]
  rfl

theorem record_sublist (entries : List (Entry β)) : (record entries).Sublist entries := by
  induction entries using List.reverseRecOn with
  | nil => exact .slnil
  | append_singleton entries e ih =>
    rw [record_append_singleton]
    exact (List.filter_sublist.trans ih).append (.refl _)

theorem record_pairwise (entries : List (Entry β)) :
    (record entries).Pairwise fun a b => a.key ≠ b.key := by
  induction entries using List.reverseRecOn with
  | nil => exact .nil
  | append_singleton entries e ih =>
    rw [record_append_singleton]
    refine List.pairwise_append.mpr ⟨ih.filter _, List.pairwise_singleton _ _, ?_⟩
    intro a ha b hb
    rw [List.mem_singleton.mp hb]
    exact of_decide_eq_true (List.mem_filter.mp ha).2

theorem record_eq_self {entries : List (Entry β)} :
    record entries = entries ↔ entries.Pairwise fun a b => a.key ≠ b.key := by
  constructor
  · intro h
    rw [← h]
    exact record_pairwise entries
  · intro h
    induction entries using List.reverseRecOn with
    | nil => rfl
    | append_singleton entries e ih =>
      obtain ⟨hentries, _, hlast⟩ := List.pairwise_append.mp h
      rw [record_append_singleton, ih hentries, List.filter_eq_self.mpr]
      exact fun a ha => decide_eq_true (hlast a ha e List.mem_cons_self)

/-- Whole series can be selected before or after the writing. -/
theorem record_filter {p : Entry β → Bool} (hp : ∀ a b, a.key = b.key → p a = p b)
    (entries : List (Entry β)) : (record entries).filter p = record (entries.filter p) := by
  induction entries using List.reverseRecOn with
  | nil => rfl
  | append_singleton entries e ih =>
    rw [record_append_singleton, List.filter_append, List.filter_append]
    cases he : p e with
    | true =>
      have hsingle : [e].filter p = [e] := by simp [he]
      rw [hsingle, record_append_singleton, ← ih, List.filter_filter, List.filter_filter]
      simp only [Bool.and_comm]
    | false =>
      have hsingle : [e].filter p = [] := by simp [he]
      rw [hsingle, List.append_nil, List.append_nil, ← ih, List.filter_filter]
      refine List.filter_congr fun q _ => ?_
      cases hq : p q with
      | false => rfl
      | true =>
        have hne : q.key ≠ e.key := fun h => by simp [hp q e h, he] at hq
        simp [hne]

theorem record_filter_series (series : String × List (String × String))
    (entries : List (Entry β)) :
    (record entries).filter (fun e => e.series = series) =
      record (entries.filter fun e => e.series = series) :=
  record_filter (fun a b h => by rw [Entry.series_of_key h]) entries

theorem pairwise_key_series {entries : List (Entry β)} :
    (∀ series, (entries.filter fun e => e.series = series).Pairwise fun a b => a.key ≠ b.key) ↔
      entries.Pairwise fun a b => a.key ≠ b.key := by
  refine ⟨fun h => ?_, fun h series => h.filter _⟩
  rw [List.pairwise_iff_forall_sublist]
  intro a b hab hkey
  have hseries := Entry.series_of_key hkey
  have hpair := hab.filter fun e => e.series = a.series
  have hboth : [a, b].filter (fun e => e.series = a.series) = [a, b] := by simp [hseries]
  rw [hboth] at hpair
  exact List.pairwise_iff_forall_sublist.mp (h a.series) hpair hkey

/-- A series that was written in time order keeps one record for each entry
exactly when no two entries have the same time. -/
theorem readSeries_record {series : String × List (String × String)} {entries : List (Entry β)}
    (horder : (entries.filter fun e => e.series = series).Pairwise fun a b => a.time ≤ b.time) :
    (readSeries series (record entries)).map Entry.fields =
        (entries.filter fun e => e.series = series).map Entry.fields ↔
      (entries.filter fun e => e.series = series).Pairwise fun a b => a.key ≠ b.key := by
  have hsublist := record_sublist (entries.filter fun e => e.series = series)
  rw [readSeries, record_filter_series, List.Pairwise.insertionSort_eq (horder.sublist hsublist),
    ← record_eq_self]
  refine ⟨fun h => ?_, fun h => by rw [h]⟩
  have hlength := congrArg List.length h
  rw [List.length_map, List.length_map] at hlength
  exact hsublist.eq_of_length hlength

theorem record_last {entries : List (Entry β)} {e : Entry β}
    (horder : (entries.filter fun q => q.series = e.series).Pairwise fun a b => a.time ≤ b.time)
    (hlast : (entries.filter fun q => q.series = e.series).getLast? = some e) :
    ∃ earlier, (record entries).filter (fun q => q.series = e.series) = earlier ++ [e] ∧
      ∀ q ∈ earlier, q.time < e.time := by
  obtain ⟨written, hsplit⟩ := List.getLast?_eq_some_iff.mp hlast
  have hselect := record_filter_series e.series entries
  rw [hsplit, record_append_singleton] at hselect
  refine ⟨_, hselect, fun q hq => ?_⟩
  obtain ⟨hrecorded, hkey⟩ := List.mem_filter.mp hq
  have hkey : q.key ≠ e.key := of_decide_eq_true hkey
  have hwritten : q ∈ written := (record_sublist written).subset hrecorded
  have hseries : q.series = e.series := by
    have hmem : q ∈ entries.filter fun q => q.series = e.series := by
      rw [hsplit]
      exact List.mem_append_left _ hwritten
    exact of_decide_eq_true (List.mem_filter.mp hmem).2
  rw [hsplit] at horder
  have hle : q.time ≤ e.time :=
    (List.pairwise_append.mp horder).2.2 q hwritten e List.mem_cons_self
  have hne : q.time ≠ e.time := fun h => hkey (Prod.ext hseries h)
  exact lt_of_le_of_ne hle hne

structure Cell (β : Type*) where
  measurement : String
  tags : List (String × String)
  field : String
  time : ℤ
  value : β

namespace Cell

def tagRank (c : Cell β) : List String := c.measurement :: c.tags.flatMap fun tag => [tag.1, tag.2]

/-- The place of the cell's table: measurement, field and tags. -/
def rank (c : Cell β) : List String :=
  c.measurement :: c.field :: c.tags.flatMap fun tag => [tag.1, tag.2]

end Cell

def Entry.cells (e : Entry β) : List (Cell β) :=
  e.fields.map fun field => ⟨e.measurement, e.tags, field.1, e.time, field.2⟩

def cells (db : List (Entry β)) : List (Cell β) := db.flatMap Entry.cells

/-- The cells grouped by a rank, the groups in its order. -/
def tablesBy (rank : Cell β → List String) (cs : List (Cell β)) : List (List (Cell β)) :=
  ((cs.map rank).dedup.insertionSort (· ≤ ·)).map fun r => cs.filter fun c => rank c = r

def newest (cs : List (Cell β)) : List (Cell β) :=
  cs.filter fun c => ∀ q ∈ cs, q.rank = c.rank → q.time ≤ c.time

/-- The fields of one combination of tags as the columns of one row a time. -/
def pivot (cs : List (Cell β)) : List (List (ℤ × List (String × β))) :=
  (tablesBy Cell.tagRank cs).map fun table =>
    ((table.map Cell.time).dedup.insertionSort (· ≤ ·)).map fun time =>
      (time, (table.filter fun c => c.time = time).map fun c => (c.field, c.value))

theorem tablesBy_head {rank : Cell β → List String} {cs : List (Cell β)} {c : Cell β}
    (h : (tablesBy rank cs).flatten.head? = some c) : c ∈ cs ∧ ∀ q ∈ cs, rank c ≤ rank q := by
  have hsorted : ((cs.map rank).dedup.insertionSort (· ≤ ·)).Pairwise (· ≤ ·) :=
    List.pairwise_insertionSort _ _
  have hmem : ∀ r, r ∈ (cs.map rank).dedup.insertionSort (· ≤ ·) ↔ r ∈ cs.map rank := by
    intro r
    rw [List.mem_insertionSort, List.mem_dedup]
  unfold tablesBy at h
  generalize (cs.map rank).dedup.insertionSort (· ≤ ·) = ranks at h hsorted hmem
  cases ranks with
  | nil => simp at h
  | cons least rest =>
    obtain ⟨first, hfirst, hrank⟩ := List.mem_map.mp ((hmem least).mp List.mem_cons_self)
    have hne : cs.filter (fun c => rank c = least) ≠ [] := by
      refine List.ne_nil_of_mem (a := first) (List.mem_filter.mpr ⟨hfirst, decide_eq_true hrank⟩)
    rw [List.map_cons, List.flatten_cons, List.head?_append_of_ne_nil _ hne] at h
    obtain ⟨hc, hcrank⟩ := List.mem_filter.mp (List.mem_of_head? h)
    have hcrank : rank c = least := of_decide_eq_true hcrank
    refine ⟨hc, fun q hq => ?_⟩
    rw [hcrank]
    cases List.mem_cons.mp ((hmem (rank q)).mpr (List.mem_map_of_mem hq)) with
    | inl heq => exact heq.ge
    | inr hrest => exact (List.pairwise_cons.mp hsorted).1 _ hrest

theorem tablesBy_eq_nil {rank : Cell β → List String} {cs : List (Cell β)}
    (h : (tablesBy rank cs).flatten.head? = none) : cs = [] := by
  rw [List.head?_eq_none_iff, List.flatten_eq_nil_iff] at h
  rw [List.eq_nil_iff_forall_not_mem]
  intro c hc
  have htable : cs.filter (fun q => rank q = rank c) ∈ tablesBy rank cs := by
    refine List.mem_map.mpr ⟨rank c, ?_, rfl⟩
    rw [List.mem_insertionSort, List.mem_dedup]
    exact List.mem_map_of_mem hc
  have hempty := h _ htable
  exact List.not_mem_nil (hempty ▸ List.mem_filter.mpr ⟨hc, decide_eq_true rfl⟩)

theorem tablesBy_singleton (rank : Cell β → List String) (c : Cell β) :
    tablesBy rank [c] = [[c]] := by
  simp [tablesBy]

theorem mem_newest {cs : List (Cell β)} {c : Cell β} :
    c ∈ newest cs ↔ c ∈ cs ∧ ∀ q ∈ cs, q.rank = c.rank → q.time ≤ c.time := by
  rw [newest, List.mem_filter, decide_eq_true_eq]

theorem tags_of_flatMap {first second : List (String × String)}
    (h : first.flatMap (fun tag => [tag.1, tag.2]) = second.flatMap fun tag => [tag.1, tag.2]) :
    first = second := by
  induction first generalizing second with
  | nil =>
    cases second with
    | nil => rfl
    | cons tag second => cases h
  | cons tag first ih =>
    cases second with
    | nil => cases h
    | cons other second =>
      simp only [List.flatMap_cons, List.cons_append, List.nil_append, List.cons.injEq] at h
      rw [ih h.2.2, Prod.ext h.1 h.2.1]

theorem Cell.eq_of_rank {a b : Cell β} (h : a.rank = b.rank) :
    a.measurement = b.measurement ∧ a.field = b.field ∧ a.tags = b.tags := by
  simp only [rank, List.cons.injEq] at h
  exact ⟨h.1, h.2.1, tags_of_flatMap h.2.2⟩

theorem Entry.mem_cells {e : Entry β} {c : Cell β} :
    c ∈ e.cells ↔ ∃ field ∈ e.fields, ⟨e.measurement, e.tags, field.1, e.time, field.2⟩ = c :=
  List.mem_map

theorem Entry.series_of_rank {a b : Entry β} {c q : Cell β} (hc : c ∈ a.cells) (hq : q ∈ b.cells)
    (h : c.rank = q.rank) : a.series = b.series := by
  obtain ⟨_, _, hc⟩ := Entry.mem_cells.mp hc
  obtain ⟨_, _, hq⟩ := Entry.mem_cells.mp hq
  rw [← hc, ← hq] at h
  obtain ⟨hmeasurement, _, htags⟩ := Cell.eq_of_rank h
  exact Prod.ext hmeasurement htags

theorem Entry.time_of_cell {e : Entry β} {c : Cell β} (hc : c ∈ e.cells) : c.time = e.time := by
  obtain ⟨_, _, hc⟩ := Entry.mem_cells.mp hc
  rw [← hc]

theorem cells_filter {p : Cell β → Bool} {q : Entry β → Bool} {db : List (Entry β)}
    (h : ∀ e ∈ db, ∀ c ∈ e.cells, p c = q e) : (cells db).filter p = cells (db.filter q) := by
  induction db with
  | nil => rfl
  | cons e db ih =>
    have hrest := ih fun x hx => h x (List.mem_cons_of_mem _ hx)
    have hfirst := h e List.mem_cons_self
    rw [cells] at hrest ⊢
    rw [List.flatMap_cons, List.filter_append, hrest, List.filter_cons]
    cases he : q e with
    | true =>
      have hall : e.cells.filter p = e.cells :=
        List.filter_eq_self.mpr fun c hc => (hfirst c hc).trans he
      rw [hall, if_pos rfl]
      rfl
    | false =>
      have hnone : e.cells.filter p = [] :=
        List.filter_eq_nil_iff.mpr fun c hc hp => by simp [← hfirst c hc, hp] at he
      rw [hnone, if_neg Bool.false_ne_true]
      rfl

section Newest

variable {db earlier : List (Entry β)} {e : Entry β}
  (hseries : db.filter (fun q => q.series = e.series) = earlier ++ [e])
  (hearlier : ∀ q ∈ earlier, q.time < e.time)

include hseries hearlier

theorem cells_newest {c : Cell β} (hc : c ∈ e.cells) : c ∈ newest (cells db) := by
  have hmem : ∀ x ∈ db, x.series = e.series → x ∈ earlier ++ [e] := fun x hx hxe => by
    rw [← hseries]
    exact List.mem_filter.mpr ⟨hx, decide_eq_true hxe⟩
  have he : e ∈ db := by
    have hlast : e ∈ db.filter fun q => q.series = e.series := by
      rw [hseries]
      exact List.mem_append_right _ List.mem_cons_self
    exact (List.mem_filter.mp hlast).1
  refine mem_newest.mpr ⟨List.mem_flatMap.mpr ⟨e, he, hc⟩, fun q hq hrank => ?_⟩
  obtain ⟨x, hx, hqx⟩ := List.mem_flatMap.mp hq
  rw [Entry.time_of_cell hqx, Entry.time_of_cell hc]
  cases List.mem_append.mp (hmem x hx (Entry.series_of_rank hqx hc hrank)) with
  | inl h => exact (hearlier x h).le
  | inr h => rw [List.mem_singleton.mp h]

theorem newest_entry {x : Entry β} {c : Cell β} (hx : x ∈ db) (hxe : x.series = e.series)
    (hfields : x.fields.map Prod.fst = e.fields.map Prod.fst) (hc : c ∈ x.cells)
    (hnewest : c ∈ newest (cells db)) : x = e := by
  have hmem : x ∈ earlier ++ [e] := by
    rw [← hseries]
    exact List.mem_filter.mpr ⟨hx, decide_eq_true hxe⟩
  cases List.mem_append.mp hmem with
  | inr h => exact List.mem_singleton.mp h
  | inl h =>
    obtain ⟨field, hfield, hcell⟩ := Entry.mem_cells.mp hc
    have hname : field.1 ∈ e.fields.map Prod.fst := by
      rw [← hfields]
      exact List.mem_map_of_mem hfield
    obtain ⟨other, hother, hothername⟩ := List.mem_map.mp hname
    have hq : (⟨e.measurement, e.tags, other.1, e.time, other.2⟩ : Cell β) ∈ e.cells :=
      Entry.mem_cells.mpr ⟨other, hother, rfl⟩
    have hrank : Cell.rank (⟨e.measurement, e.tags, other.1, e.time, other.2⟩ : Cell β) =
        c.rank := by
      have hmeasurement : x.measurement = e.measurement := congrArg Prod.fst hxe
      have htags : x.tags = e.tags := congrArg Prod.snd hxe
      rw [← hcell, Cell.rank, Cell.rank, hothername, hmeasurement, htags]
    have hle := (mem_newest.mp hnewest).2 _ (mem_newest.mp (cells_newest hseries hearlier hq)).1
      hrank
    rw [Entry.time_of_cell hc] at hle
    exact absurd (hearlier x h) (not_lt.mpr hle)

end Newest

theorem newest_cells {earlier : List (Entry β)} {e : Entry β}
    (hearlier : ∀ q ∈ earlier, q.time < e.time) (hseries : ∀ q ∈ earlier, q.series = e.series)
    (hfields : ∀ q ∈ earlier, q.fields.map Prod.fst = e.fields.map Prod.fst) :
    newest (cells (earlier ++ [e])) = e.cells := by
  have hall : (earlier ++ [e]).filter (fun q => q.series = e.series) = earlier ++ [e] := by
    refine List.filter_eq_self.mpr fun q hq => decide_eq_true ?_
    cases List.mem_append.mp hq with
    | inl h => exact hseries q h
    | inr h => rw [List.mem_singleton.mp h]
  have hold : ∀ c ∈ cells earlier, c ∉ newest (cells (earlier ++ [e])) := by
    intro c hc hnewest
    obtain ⟨x, hx, hcx⟩ := List.mem_flatMap.mp hc
    have hxe : x = e := newest_entry hall hearlier (List.mem_append_left _ hx) (hseries x hx)
      (hfields x hx) hcx hnewest
    have hlt := hearlier x hx
    rw [hxe] at hlt
    exact lt_irrefl _ hlt
  have hcells : cells (earlier ++ [e]) = cells earlier ++ e.cells := by
    rw [cells, List.flatMap_append, List.flatMap_singleton]
    rfl
  have hnew : ∀ c ∈ e.cells, c ∈ newest (cells (earlier ++ [e])) :=
    fun c hc => cells_newest hall hearlier hc
  rw [newest, hcells] at hold hnew ⊢
  rw [List.filter_append, List.filter_eq_nil_iff.mpr, List.filter_eq_self.mpr, List.nil_append]
  · exact fun c hc => (List.mem_filter.mp (hnew c hc)).2
  · exact fun c hc hp => hold c hc (List.mem_filter.mpr ⟨List.mem_append_left _ hc, hp⟩)

theorem pivot_cells {e : Entry β} (h : e.fields ≠ []) : pivot e.cells = [[(e.time, e.fields)]] := by
  have hlength : e.cells.length ≠ 0 := by
    rw [Entry.cells, List.length_map]
    exact fun h0 => h (List.length_eq_zero_iff.mp h0)
  have hranks : e.cells.map Cell.tagRank =
      List.replicate e.cells.length (e.measurement :: e.tags.flatMap fun tag => [tag.1, tag.2]) := by
    refine List.eq_replicate_iff.mpr ⟨List.length_map _, fun r hr => ?_⟩
    obtain ⟨c, hc, hcr⟩ := List.mem_map.mp hr
    obtain ⟨field, _, hfield⟩ := List.mem_map.mp hc
    rw [← hcr, ← hfield]
    rfl
  have htimes : e.cells.map Cell.time = List.replicate e.cells.length e.time := by
    refine List.eq_replicate_iff.mpr ⟨List.length_map _, fun t ht => ?_⟩
    obtain ⟨c, hc, hct⟩ := List.mem_map.mp ht
    obtain ⟨field, _, hfield⟩ := List.mem_map.mp hc
    rw [← hct, ← hfield]
  have hall : tablesBy Cell.tagRank e.cells = [e.cells] := by
    rw [tablesBy, hranks, List.replicate_dedup hlength, List.insertionSort_cons]
    simp only [List.insertionSort_nil, List.orderedInsert_nil, List.map_cons, List.map_nil,
      List.cons.injEq, and_true]
    refine List.filter_eq_self.mpr fun c hc => ?_
    obtain ⟨field, _, hfield⟩ := List.mem_map.mp hc
    rw [← hfield]
    exact decide_eq_true rfl
  rw [pivot, hall]
  simp only [List.map_cons, List.map_nil, htimes, List.replicate_dedup hlength]
  simp only [List.insertionSort_cons, List.insertionSort_nil, List.orderedInsert_nil,
    List.map_cons, List.map_nil, List.cons.injEq, Prod.mk.injEq, true_and, and_true]
  rw [List.filter_eq_self.mpr]
  · rw [Entry.cells, List.map_map]
    exact List.map_id _
  · intro c hc
    obtain ⟨field, _, hfield⟩ := List.mem_map.mp hc
    rw [← hfield]
    exact decide_eq_true rfl

end Cherum.TimeSeries
