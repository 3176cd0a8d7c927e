import ClientTypes.Linking
import ClientTypes.Proofs.Table

/-! Groups of operations. There is one group for each first tag, in order of first appearance, and each
operation is listed once, in the group of its first tag. Groups are told apart by their tags as they are
written; the names of their modules are told apart only if the tags differ in snake case. -/
namespace ClientTypes.Linking

open Naming

/-- Items that are picked by distinct keys are all of them, each once, if every item has one of the keys. -/
theorem flatMap_filter_perm {α κ : Type} [DecidableEq κ] {key : α → κ} {keys : List κ} (hKeys : keys.Nodup)
    {items : List α} (hAll : ∀ item ∈ items, key item ∈ keys) :
    (keys.flatMap fun k => items.filter (key · = k)).Perm items := by
  induction keys generalizing items with
  | nil =>
      cases items with
      | nil => simp
      | cons item more => simpa using hAll item (List.mem_cons_self ..)
  | cons k rest ih =>
      obtain ⟨hNew, hRest⟩ := List.nodup_cons.mp hKeys
      have hOthers : (rest.flatMap fun k' => items.filter (key · = k')) =
          rest.flatMap fun k' => (items.filter (key · ≠ k)).filter (key · = k') := by
        refine List.flatMap_congr fun k' hk' => ?_
        rw [List.filter_filter]
        refine List.filter_congr fun item _ => ?_
        have hApart : k' ≠ k := ne_of_mem_of_not_mem hk' hNew
        by_cases hIs : key item = k' <;> simp [hIs, hApart]
      have hRemaining : ∀ item ∈ items.filter (key · ≠ k), key item ∈ rest := by
        intro item hItem
        obtain ⟨hMem, hOther⟩ := List.mem_filter.mp hItem
        exact (List.mem_cons.mp (hAll item hMem)).resolve_left (by simpa using hOther)
      rw [List.flatMap_cons, hOthers]
      refine ((ih hRest hRemaining).append_left _).trans ?_
      simpa using List.filter_append_perm (key · = k) items

/-! ### Operations by their first tags -/

/-- The first tags of operations, in order of first appearance. -/
def firstTags (os : List Operation) : List String := (os.map groupTag).eraseDups

/-- The group of a tag: the operations that have it as their first one, under the names of the tag. -/
def groupOf (os : List Operation) (tag : String) : TagGroup where
  baseName := underscore tag
  classname := camelize tag
  operations := (os.filter (groupTag · = tag)).map (·.operationId)

theorem mem_firstTags {os : List Operation} {tag : String} :
    tag ∈ firstTags os ↔ ∃ o ∈ os, groupTag o = tag := by
  rw [firstTags, List.mem_eraseDups, List.mem_map]

theorem nodup_firstTags (os : List Operation) : (firstTags os).Nodup := Table.nodup_eraseDups _

theorem firstTags_concat (os : List Operation) (o : Operation) :
    firstTags (os ++ [o]) =
      if groupTag o ∈ firstTags os then firstTags os else firstTags os ++ [groupTag o] := by
  simp only [firstTags, List.map_append, List.map_singleton, Table.eraseDups_concat, List.mem_eraseDups]

/-- One more operation changes the group of its first tag only. -/
theorem groupOf_concat (os : List Operation) (o : Operation) (tag : String) :
    groupOf (os ++ [o]) tag =
      if tag = groupTag o then
        { groupOf os tag with operations := (groupOf os tag).operations ++ [o.operationId] }
      else groupOf os tag := by
  by_cases hTag : tag = groupTag o
  · simp [groupOf, hTag]
  · simp [groupOf, hTag, Ne.symm hTag]

/-- No operation has a tag that is not among the first tags. -/
theorem groupOf_of_notMem {os : List Operation} {tag : String} (h : tag ∉ firstTags os) :
    groupOf os tag = { baseName := underscore tag, classname := camelize tag } := by
  have hNone : os.filter (groupTag · = tag) = [] := by
    rw [List.filter_eq_nil_iff]
    intro o ho
    simpa using fun hTag => h (mem_firstTags.mpr ⟨o, ho, hTag⟩)
  rw [groupOf, hNone]
  rfl

/-- The groups while operations are added, by their tags. -/
theorem foldl_addToGroup (os : List Operation) :
    os.foldl addToGroup [] = (firstTags os).map fun tag => (tag, groupOf os tag) := by
  induction os using List.reverseRecOn with
  | nil => rfl
  | append_singleton before o ih =>
      have hGroup : (Table.get? ((firstTags before).map fun tag => (tag, groupOf before tag))
          (groupTag o)).getD { baseName := underscore (groupTag o), classname := camelize (groupTag o) } =
          groupOf before (groupTag o) := by
        rw [Table.get?_map_keys]
        split
        next => rfl
        next hNew => rw [groupOf_of_notMem hNew]; rfl
      rw [List.foldl_append, ih, List.foldl_cons, List.foldl_nil, addToGroup, hGroup,
        Table.put_map_keys (nodup_firstTags before), ← firstTags_concat]
      refine List.map_congr_left fun tag _ => ?_
      rw [groupOf_concat]
      by_cases hTag : tag = groupTag o <;> simp [hTag]

theorem groupByTag_eq (os : List Operation) : groupByTag os = (firstTags os).map (groupOf os) := by
  simp [groupByTag, Table.values, foldl_addToGroup]

/-- Groups of operations by distinct tags. -/
structure GroupedBy (tags : List String) (os : List Operation) (groups : List TagGroup) : Prop where
  /-- A group holds the operations of its tag, in the order in which they are given. -/
  members : groups = tags.map (groupOf os)
  isTag : ∀ tag, tag ∈ tags ↔ ∃ o ∈ os, groupTag o = tag
  /-- Tags stand in the order of the first operations that have them, and each stands once. -/
  order : tags.Pairwise fun a b => (os.map groupTag).idxOf a < (os.map groupTag).idxOf b
  /-- All groups together list every operation once. -/
  once : (groups.flatMap (·.operations)).Perm (os.map (·.operationId))
  /-- The names of two groups are the same exactly when their tags are the same in snake case. -/
  names : (groups.map (·.baseName)).Nodup ↔
    ∀ a ∈ tags, ∀ b ∈ tags, underscore a = underscore b → a = b

/-- Operations are grouped by their first tags. -/
theorem groupByTag_grouped (os : List Operation) : GroupedBy (firstTags os) os (groupByTag os) where
  members := groupByTag_eq os
  isTag _ := mem_firstTags
  order := Table.pairwise_idxOf_eraseDups _
  once := by
    have hTagged : ∀ o ∈ os, groupTag o ∈ firstTags os := fun o ho => mem_firstTags.mpr ⟨o, ho, rfl⟩
    have hOnce := flatMap_filter_perm (nodup_firstTags os) hTagged
    rw [groupByTag_eq, List.flatMap_map]
    simpa [groupOf, List.map_flatMap] using hOnce.map (·.operationId)
  names := by
    have hNames : (groupByTag os).map (·.baseName) = (firstTags os).map underscore := by
      rw [groupByTag_eq, List.map_map]
      rfl
    rw [hNames, List.nodup_map_iff_inj_on (nodup_firstTags os)]

def taggedOperation (name tag : String) : Operation where
  operationId := name
  nickname := underscore name
  method := "GET"
  path := "/" ++ name
  tags := [tag]

/-- Tags that differ in the case of a letter only are two groups of one name. -/
theorem groups_share_name : ¬ ((groupByTag
    [taggedOperation "listPets" "Pets", taggedOperation "getPet" "pets"]).map (·.baseName)).Nodup := by
  decide +kernel

end ClientTypes.Linking
