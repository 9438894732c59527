import DocComment.Proofs.ByteOrder
import DocComment.Proofs.Everywhere
import DocComment.Proofs.StandardTable

/-!
# What a table tells of its registrations

A table is the map in which the last registration under a tag wins, and nodes see it through the
base commands of their tags. So what is registered under a qualified tag is listed and counted, but
no look-up finds it and no tree is written in another way.
-/

namespace DocComment

open HandlerTable (standard)

namespace Node

/-- Tables with the same look-ups write the same. -/
theorem render_congr_table {table other : HandlerTable}
    (h : ∀ tag, table.lookup tag = other.lookup tag) (scope : Scope) (node : Node) :
    node.render table scope = node.render other scope := by
  induction node using Node.induction with
  | _ node ih => rw [render_eq, render_eq, h, List.map_congr_left ih]

theorem renderBody_congr_table {table other : HandlerTable}
    (h : ∀ tag, table.lookup tag = other.lookup tag) (scope : Scope) (node : Node) :
    node.renderBody table scope = node.renderBody other scope := by
  have hpieces := List.map_congr_left fun child (_ : child ∈ node.children) =>
    render_congr_table h scope child
  rw [renderBody, renderBody, renderAll, renderAll, List.flatMap_def, List.flatMap_def, hpieces]

end Node

namespace HandlerTable

section Tags

theorem mem_tags_register (table : HandlerTable) (tag : String) (entry : Entry) (other : String) :
    other ∈ (table.register tag entry).tags ↔ other = tag ∨ other ∈ table.tags := by
  rw [mem_tags_iff, get?_register, mem_tags_iff]
  split <;> simp [*]

/-- The tags are those of the start and those of the registrations. -/
theorem mem_tags_registerAll (table : HandlerTable) (registrations : List (String × Entry))
    (tag : String) :
    tag ∈ (table.registerAll registrations).tags ↔
      tag ∈ table.tags ∨ tag ∈ registrations.map Prod.fst := by
  induction registrations generalizing table with
  | nil => simp
  | cons item rest ih =>
    rw [registerAll_cons, ih, mem_tags_register, List.map_cons, List.mem_cons, or_assoc,
      or_left_comm]

theorem tags_increasing (table : HandlerTable) :
    table.tags.Pairwise fun tag other => utf8Bytes tag < utf8Bytes other := by
  rw [tags, List.pairwise_map]
  exact table.increasing.imp utf8Bytes_lt

end Tags

section Lookup

/-- What is found is the last registration under the base command, or was there before. -/
theorem lookup_registerAll (table : HandlerTable) (registrations : List (String × Entry))
    (tag : String) :
    (table.registerAll registrations).lookup tag =
      ((registrations.reverse.find? (·.1 = baseCommand tag)).map (·.2)).or (table.lookup tag) :=
  get?_registerAll table registrations (baseCommand tag)

/-- No tag has a qualified one as its base, so nothing looks there. -/
theorem lookup_register_qualified (table : HandlerTable) {tag : String}
    (h : baseCommand tag ≠ tag) (entry : Entry) (other : String) :
    (table.register tag entry).lookup other = table.lookup other := by
  have hother : baseCommand other ≠ tag := by
    rintro rfl
    exact h (baseCommand_baseCommand other)
  rw [lookup, get?_register, if_neg hother, lookup]

/-- Also later registrations make no difference of it. -/
theorem lookup_registerAll_register_qualified (table : HandlerTable) {tag : String}
    (h : baseCommand tag ≠ tag) (entry : Entry) (later : List (String × Entry)) (other : String) :
    ((table.register tag entry).registerAll later).lookup other =
      (table.registerAll later).lookup other := by
  rw [lookup_registerAll, lookup_registerAll, lookup_register_qualified table h]

end Lookup

/-- What the observers of a table tell that was made from another one by registrations. -/
structure TellsOf (start : HandlerTable) (registrations : List (String × Entry))
    (table : HandlerTable) :
    Prop where
  /-- The last registration under the base command is found, or else what was there at the start. -/
  lookup_eq : ∀ tag, table.lookup tag =
    ((registrations.reverse.find? (·.1 = baseCommand tag)).map (·.2)).or
      (start.get? (baseCommand tag))
  supports_iff : ∀ tag, table.supports tag = true ↔ baseCommand tag ∈ table.tags
  lookup_base : ∀ tag other, baseCommand tag = baseCommand other →
    table.lookup tag = table.lookup other
  /-- One more registration under a qualified tag makes no difference, now or after any others. -/
  qualified : ∀ tag entry later, baseCommand tag ≠ tag →
    (∀ other, ((table.register tag entry).registerAll later).lookup other =
      (table.registerAll later).lookup other) ∧
    ∀ (scope : Scope) (node : Node),
      node.render ((table.register tag entry).registerAll later) scope =
          node.render (table.registerAll later) scope ∧
        node.renderBody ((table.register tag entry).registerAll later) scope =
          node.renderBody (table.registerAll later) scope
  increasing : table.tags.Pairwise fun tag other => utf8Bytes tag < utf8Bytes other
  mem_tags_iff : ∀ tag, tag ∈ table.tags ↔ tag ∈ start.tags ∨ tag ∈ registrations.map Prod.fst
  size_eq : table.size = table.tags.length
  isEmpty_iff : table.isEmpty = true ↔ table.tags = []

theorem observers_of_registrations (start : HandlerTable) (registrations : List (String × Entry)) :
    TellsOf start registrations (start.registerAll registrations) where
  lookup_eq tag := lookup_registerAll start registrations tag
  supports_iff tag := HandlerTable.supports_iff _ tag
  lookup_base tag other h := by rw [lookup, h, lookup]
  qualified tag entry later h := by
    have hlookup :=
      lookup_registerAll_register_qualified (start.registerAll registrations) h entry later
    exact ⟨hlookup, fun scope node =>
      ⟨Node.render_congr_table hlookup scope node, Node.renderBody_congr_table hlookup scope node⟩⟩
  increasing := tags_increasing _
  mem_tags_iff tag := mem_tags_registerAll start registrations tag
  size_eq := by rw [size, tags, List.length_map]
  isEmpty_iff := by rw [isEmpty, tags, List.isEmpty_iff, List.map_eq_nil_iff]

/-- A command registered twice, with a qualified tag in between. -/
def overwritten : List (String × Entry) :=
  [("b", ⟨.wrap, "strong"⟩), ("param[in]", ⟨.wrap, "p"⟩), ("b", ⟨.literal, "bold"⟩)]

theorem observers_of_registrations_overwritten :
    (standard.registerAll overwritten).lookup "b" = some ⟨.literal, "bold"⟩ ∧
      (standard.registerAll overwritten).lookup "param[in]" = some ⟨.parameter, ""⟩ ∧
      "param[in]" ∈ (standard.registerAll overwritten).tags ∧
      baseCommand "param[out]" ≠ "param[out]" ∧
      ∀ (scope : Scope) (node : Node),
        node.render ((standard.registerAll overwritten).register "param[out]" ⟨.wrap, "q"⟩) scope =
          node.render (standard.registerAll overwritten) scope := by
  have hobservers := observers_of_registrations standard overwritten
  have hqualified : baseCommand "param[out]" ≠ "param[out]" := by decide +kernel
  have hbold : (overwritten.reverse.find? (·.1 = baseCommand "b")).map (·.2) =
      some ⟨.literal, "bold"⟩ := by
    decide +kernel
  have hparam : (overwritten.reverse.find? (·.1 = baseCommand "param[in]")).map (·.2) = none := by
    decide +kernel
  have hstart : standard.lookup "param[in]" = some ⟨.parameter, ""⟩ := by
    rw [lookup_standard]
    decide +kernel
  have hunseen := (hobservers.qualified "param[out]" ⟨.wrap, "q"⟩ [] hqualified).2
  simp only [registerAll_nil] at hunseen
  refine ⟨?_, ?_, ?_, hqualified, fun scope node => (hunseen scope node).1⟩
  · rw [hobservers.lookup_eq, hbold, Option.some_or]
  · rw [hobservers.lookup_eq, hparam, Option.none_or, ← lookup, hstart]
  · rw [hobservers.mem_tags_iff]
    exact .inr (by decide)

end HandlerTable

end DocComment
