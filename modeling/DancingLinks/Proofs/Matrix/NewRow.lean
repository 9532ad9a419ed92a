import DancingLinks.Proofs.Matrix.Furnished
import DancingLinks.Proofs.Matrix.Lines
import DancingLinks.Proofs.Mesh.Visible
import DancingLinks.Search.Requests

/-!
# A new row

Adding a row either fails and leaves the matrix alone, or adds the row and nothing else
(`addRow_all_or_nothing`). What the second means is `Matrix.AddsRow`: the new nodes have the next numbers,
each is the last of its rings, each ring is closed, and who walks along a ring from an old node meets the
old nodes in their order.

All that comes from the rings of the problem with one more choice, which are those of the problem with
the new nodes at their ends (`Problem.exists_columnRing_add`).
-/

namespace DancingLinks

open DancingLinks.Matrix (primaryRoot secondaryRoot)

variable {p : Problem Nat} {r : Choice Nat} {c h x : Nat} {xs : List Nat}

/-! ## Rings with a new row -/

namespace Problem

/-- The old horizontal rings stay. -/
theorem mem_rowRings_add (ring : (h, xs) ∈ p.rowRings) (r : Choice Nat) :
    (h, xs) ∈ (p.add r).rowRings := by
  simp only [rowRings, add, List.map_append, List.mem_cons, List.mem_append] at ring ⊢
  rcases ring with here | here | here
  · exact .inl here
  · exact .inr (.inl here)
  · exact .inr (.inr (.inl here))

/-- Old vertical rings get nodes of the new row at their ends, if they get any. -/
theorem exists_columnRing_add (ring : (c, xs) ∈ p.columnRings) (r : Choice Nat) :
    ∃ zs, (c, xs ++ zs) ∈ (p.add r).columnRings ∧ (c ∉ primaryRoot :: r.columns → zs = []) ∧
      ∀ z ∈ zs, z ∈ r.number :: r.nodes := by
  simp only [columnRings, List.mem_cons, List.mem_map, Prod.mk.injEq] at ring
  rcases ring with ⟨rfl, rfl⟩ | ⟨rfl, rfl⟩ | ⟨d, hd, rfl, rfl⟩
  · refine ⟨[r.number], ?_, fun out => absurd List.mem_cons_self out, by simp⟩
    simp [columnRings, add]
  · exact ⟨[], by simp [columnRings], fun _ => rfl, List.forall_mem_nil _⟩
  · refine ⟨if d ∈ r.columns then [r.node d] else [], ?_, fun out => ?_, fun z there => ?_⟩
    · rw [← entries_add]
      exact List.mem_cons_of_mem _ (List.mem_cons_of_mem _ (List.mem_map.2 ⟨d, hd, rfl⟩))
    · exact if_neg fun used => out (List.mem_cons_of_mem _ used)
    · split at there
      · next used =>
        obtain rfl := List.mem_singleton.1 there
        exact List.mem_cons_of_mem _ (List.mem_map_of_mem used)
      · cases there

end Problem

namespace Mesh

variable {m m' : Mesh}

theorem Uncovered.strung (h : m.Uncovered p) : m.Strung p := by
  simpa only [Problem.without_nil] using h.shows.strung

/-- All nodes are seen when no column is covered. -/
theorem Framed.visible (framed : m.Framed p) (lt : x < m.size) : x ∈ p.visible := by
  simp only [Problem.visible, List.mem_cons, List.mem_append, List.mem_map, List.mem_flatMap]
  rcases framed.all x lt with root | column | ⟨r, hr, there⟩
  · simp only [List.mem_cons, List.not_mem_nil, or_false] at root
    exact root.elim .inl fun root => .inr (.inl root)
  · exact .inr (.inr (.inl (.inl column)))
  · rcases List.mem_cons.1 there with rfl | there
    · exact .inr (.inr (.inl (.inr ⟨r, hr, rfl⟩)))
    · obtain ⟨c, hc, rfl⟩ := List.mem_map.1 there
      refine .inr (.inr (.inr ⟨c, (framed.holds.rows r hr).declared c hc, ?_⟩))
      exact List.mem_map.2 ⟨r, List.mem_filter.2 ⟨hr, by simpa using hc⟩, rfl⟩

/-- A walk from a node that is seen comes back to it. -/
theorem Strung.exists_walk (strung : m.Strung p) (seen : x ∈ p.visible) (d : Direction) :
    ∃ ys, m.nodesAfter d x = some ys := by
  obtain ⟨⟨h, xs, row, inRow⟩, c, ys, column, inColumn⟩ := Problem.exists_rings seen
  obtain ⟨mates, -, across⟩ := Row.exists_walks inRow
  obtain ⟨after, before, -, along⟩ := Column.exists_walks inColumn
  obtain ⟨right, left⟩ := across m (strung.row row)
  obtain ⟨down, up⟩ := along m [] (by rw [List.append_nil]; exact strung.column column)
  cases d with
  | up => exact ⟨_, up⟩
  | down => exact ⟨_, down⟩
  | left => exact ⟨_, left⟩
  | right => exact ⟨_, right⟩

/-- A new row is not met across from an old node. -/
theorem Strung.across_add (strung : m.Strung p) (strung' : m'.Strung (p.add r))
    (seen : x ∈ p.visible) : ∃ ys, (∀ y ∈ ys, y < m.size) ∧
      (m.nodesAfter .right x = some ys ∧ m.nodesAfter .left x = some ys.reverse) ∧
      m'.nodesAfter .right x = some ys ∧ m'.nodesAfter .left x = some ys.reverse := by
  obtain ⟨h, xs, ring, mem⟩ := (Problem.exists_rings seen).1
  obtain ⟨ys, inRow, walks⟩ := Row.exists_walks mem
  have row := strung.row ring
  exact ⟨ys, fun y there => row.bound y (inRow y there), walks m row,
    walks m' (strung'.row (Problem.mem_rowRings_add ring r))⟩

/-- The nodes of a new row are met at one place along the column of an old node, if they are. -/
theorem Strung.along_add (strung : m.Strung p) (strung' : m'.Strung (p.add r))
    (seen : x ∈ p.visible) : ∃ as zs bs, (∀ y ∈ as ++ bs, y < m.size) ∧
      (∀ z ∈ zs, z ∈ r.number :: r.nodes) ∧
      (m.columnHeader.get x ∉ primaryRoot :: r.columns → zs = []) ∧
      (m.nodesAfter .down x = some (as ++ bs) ∧ m.nodesAfter .up x = some (as ++ bs).reverse) ∧
      m'.nodesAfter .down x = some (as ++ zs ++ bs) ∧
        m'.nodesAfter .up x = some (as ++ zs ++ bs).reverse := by
  obtain ⟨c, ys, ring, mem⟩ := (Problem.exists_rings seen).2
  obtain ⟨zs, ring', none, new⟩ := Problem.exists_columnRing_add ring r
  obtain ⟨as, bs, inColumn, walks⟩ := Column.exists_walks mem
  have column := strung.column ring
  have before := walks m [] (by rw [List.append_nil]; exact column)
  rw [List.append_nil] at before
  refine ⟨as, zs, bs, fun y there => column.bound y (inColumn y there), new, fun out => ?_, before,
    walks m' zs (strung'.column ring')⟩
  exact none (column.header x mem ▸ out)

/-- Of what is met along a ring, nodes with higher numbers that stand at one place are left out. -/
theorem filter_old {n : Nat} {as zs bs : List Nat} (old : ∀ y ∈ as ++ bs, y < n)
    (new : ∀ z ∈ zs, n ≤ z) : (as ++ zs ++ bs).filter (· < n) = as ++ bs := by
  have front : as.filter (· < n) = as := List.filter_eq_self.2 fun y mem => by
    simpa using old y (List.mem_append_left _ mem)
  have back : bs.filter (· < n) = bs := List.filter_eq_self.2 fun y mem => by
    simpa using old y (List.mem_append_right _ mem)
  have middle : zs.filter (· < n) = [] := List.filter_eq_nil_iff.2 fun z mem => by
    simpa using new z mem
  rw [List.filter_append, List.filter_append, front, middle, back, List.append_nil]

/-- Old nodes are met in their order in every ring. -/
theorem Strung.order_add (strung : m.Strung p) (strung' : m'.Strung (p.add r))
    (new : ∀ z ∈ r.number :: r.nodes, m.size ≤ z) (seen : x ∈ p.visible) (d : Direction) :
    ∃ xs ys, m.nodesAfter d x = some xs ∧ m'.nodesAfter d x = some ys ∧
      ys.filter (· < m.size) = xs := by
  obtain ⟨mates, inside, ⟨right, left⟩, right', left'⟩ := strung.across_add strung' seen
  obtain ⟨as, zs, bs, old, added, -, ⟨down, up⟩, down', up'⟩ := strung.along_add strung' seen
  have across : mates.filter (· < m.size) = mates :=
    List.filter_eq_self.2 fun y mem => by simpa using inside y mem
  have along := filter_old old fun z mem => new z (added z mem)
  cases d with
  | up => exact ⟨_, _, up, up', by rw [List.filter_reverse, along]⟩
  | down => exact ⟨_, _, down, down', along⟩
  | left => exact ⟨_, _, left, left', by rw [List.filter_reverse, across]⟩
  | right => exact ⟨_, _, right, right', across⟩

/-- The node that a new row has in a column is the last of the column. -/
theorem Strung.last_add (strung : m.Strung p) (strung' : m'.Strung (p.add r)) (hc : c ∈ p.columns)
    (used : c ∈ r.columns) : ∃ ys, m.nodesAfter .down c = some ys ∧
      m'.nodesAfter .down c = some (ys ++ [r.node c]) := by
  have column := strung'.columns c hc
  rw [Problem.entries_add, if_pos used] at column
  exact ⟨_, (strung.columns c hc).nodesAfter_down, column.nodesAfter_down⟩

end Mesh

namespace Matrix

variable {m m' : Matrix} {q : Problem String} {name : String} {columns : List String}

theorem nodesAfter_eq {d : Direction} (met : m.mesh.nodesAfter d x = some xs) :
    m.nodesAfter d x = .ok xs := by
  rw [nodesAfter, met]

/-! ## Rows that are added -/

/-- The second matrix is the first with one more row, which uses the columns with some headers. -/
structure AddsRow (m m' : Matrix) (name : String) (columns : List String) (headers : List Nat) :
    Prop where
  /-- The columns of the row are those with these headers. -/
  found : columns.mapM m.column = .ok headers
  /-- Old nodes keep their labels and headers. -/
  remains : m.Remains m'
  /-- The new nodes have the next numbers, the header of the row first. -/
  labels : m'.mesh.labels.toList
    = m.mesh.labels.toList ++ some name :: List.replicate columns.length none
  row : m'.HasRow m.mesh.size name columns
  /-- The row is the last of the rows. -/
  last : ∃ rows, m.uncoveredRows = .ok rows ∧ m'.uncoveredRows = .ok (rows ++ [m.mesh.size])
  /-- Each of its nodes is the last of its column. -/
  entries : ∀ (i : Nat) (lt : i < headers.length), ∃ ys, m.nodesAfter .down headers[i] = .ok ys ∧
    m'.nodesAfter .down headers[i] = .ok (ys ++ [m.mesh.size + 1 + i])
  count : ∀ x, m'.mesh.count x = m.mesh.count x + if x ∈ primaryRoot :: headers then 1 else 0
  /-- Rings are closed in both directions. -/
  linked : ∀ x < m'.mesh.size, ∀ d, m'.mesh.neighbor d.opposite (m'.mesh.neighbor d x) = x
  closed : ∀ x < m'.mesh.size, ∀ d, ∃ ys, m'.nodesAfter d x = .ok ys
  /-- The rings of columns and the old rows are as they were. -/
  across : ∀ x < m.mesh.size, m'.nodesAfter .right x = m.nodesAfter .right x ∧
    m'.nodesAfter .left x = m.nodesAfter .left x
  /-- The columns that the row does not use are as they were. -/
  along : ∀ x < m.mesh.size, m.mesh.columnHeader.get x ∉ primaryRoot :: headers →
    m'.nodesAfter .down x = m.nodesAfter .down x ∧ m'.nodesAfter .up x = m.nodesAfter .up x
  /-- In every ring the old nodes are met in their order. -/
  order : ∀ x < m.mesh.size, ∀ d, ∃ xs ys, m.nodesAfter d x = .ok xs ∧
    m'.nodesAfter d x = .ok ys ∧ ys.filter (· < m.mesh.size) = xs

/-- With the row, the matrix shows the problem with one more choice. -/
theorem Built.furnished_add (built : Built m q) (added : m.addRow name columns = .ok m') :
    m'.Furnished (q.numbered.add ⟨m.mesh.size, name, columns.map q.header⟩) ∧
      m'.mesh.Uncovered (q.numbered.add ⟨m.mesh.size, name, columns.map q.header⟩) := by
  have numbered : Problem.numbered { q with choices := q.choices ++ [⟨m.mesh.size, name, columns⟩] }
      = q.numbered.add ⟨m.mesh.size, name, columns.map q.header⟩ := q.numbered_add _
  have built' := Built.addRow built added
  rw [← numbered]
  exact ⟨built'.furnished, built'.founded_numbered.uncovered⟩

/-- A row that is added leaves all else as it was. -/
theorem Built.addsRow (built : Built m q) (added : m.addRow name columns = .ok m') :
    m.AddsRow m' name columns (columns.map q.header) := by
  have furnished := built.furnished
  have uncovered := built.founded_numbered.uncovered
  obtain ⟨furnished', uncovered'⟩ := built.furnished_add added
  have remains := (furnished.addRow added).1
  obtain ⟨headers, resolved, made⟩ := ok_of_bind added
  have found := mapM_column_of_resolve resolved
  obtain rfl : headers = columns.map q.header :=
    eq_map_of_mapM found fun name _ c here => (built.column_eq_ok_iff.1 here).2.symm
  have inLast : (⟨m.mesh.size, name, columns.map q.header⟩ : Choice Nat) ∈
      (q.numbered.add ⟨m.mesh.size, name, columns.map q.header⟩).choices :=
    List.mem_append_right _ List.mem_cons_self
  have holds := uncovered'.holds.rows _ inLast
  have declared : ∀ c ∈ columns.map q.header, c ∈ q.numbered.columns := holds.declared
  have strung := uncovered.strung
  have strung' := uncovered'.strung
  refine
    { found := found
      remains := remains
      labels := ?_
      row := furnished'.hasRow inLast (remains.column_eq ▸ found)
      last := ⟨_, nodesAfter_eq strung.numbers.nodesAfter_down, ?_⟩
      entries := fun i lt => ?_
      count := fun x => ?_
      linked := fun x lt d => strung'.linked (furnished'.framed.visible lt) d
      closed := fun x lt d => ?_
      across := fun x lt => ?_
      along := fun x lt out => ?_
      order := fun x lt d => ?_ }
  · cases made
    rw [Mesh.labels_addRowMesh, List.length_map]
  · refine nodesAfter_eq (strung'.numbers.nodesAfter_down.trans ?_)
    rw [Problem.add, List.map_append]
    rfl
  · have used := List.getElem_mem lt
    obtain ⟨ys, met, met'⟩ := strung.last_add strung' (declared _ used) used
    rw [Choice.node, holds.nodup.idxOf_getElem i lt] at met'
    exact ⟨ys, nodesAfter_eq met, nodesAfter_eq met'⟩
  · cases made
    have nodup : (primaryRoot :: columns.map q.header).Nodup :=
      List.nodup_cons.2 ⟨fun mem => uncovered.holds.primaryRoot_not_mem (declared _ mem), holds.nodup⟩
    rw [uncovered.count_addRowMesh declared holds.nodup, nodup.count]
    split
    · rfl
    · rfl
  · obtain ⟨ys, met⟩ := strung'.exists_walk (furnished'.framed.visible lt) d
    exact ⟨ys, nodesAfter_eq met⟩
  · obtain ⟨ys, -, ⟨right, left⟩, right', left'⟩ :=
      strung.across_add strung' (furnished.framed.visible lt)
    rw [nodesAfter_eq right, nodesAfter_eq left, nodesAfter_eq right', nodesAfter_eq left']
    exact ⟨rfl, rfl⟩
  · obtain ⟨as, zs, bs, -, -, none, ⟨down, up⟩, down', up'⟩ :=
      strung.along_add strung' (furnished.framed.visible lt)
    rw [none out, List.append_nil] at down' up'
    rw [nodesAfter_eq down, nodesAfter_eq up, nodesAfter_eq down', nodesAfter_eq up']
    exact ⟨rfl, rfl⟩
  · obtain ⟨xs, ys, met, met', kept⟩ := strung.order_add strung' (fun z => Choice.number_le)
      (furnished.framed.visible lt) d
    exact ⟨xs, ys, nodesAfter_eq met, nodesAfter_eq met', kept⟩

end Matrix

end DancingLinks
