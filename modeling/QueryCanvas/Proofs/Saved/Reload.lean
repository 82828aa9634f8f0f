import QueryCanvas.Saved
import QueryCanvas.Proofs.Canvas.Tree
import QueryCanvas.Proofs.Data.TextNesting

/-!
# Saved canvases are loaded again

A stored canvas that is read gives the canvas that was stored, as long as the reader goes deep
enough into the document, and nothing otherwise.  Every decoder is shown to undo its encoder in this
sense: from the document cut off at some depth it gives the encoded value if nothing was cut off,
and no value if anything was.
-/

set_option autoImplicit false

namespace QueryCanvas

namespace Data

variable {α β : Type}

/-- From the document cut off at any depth, the decoder gives the value if nothing was cut off and
a further condition holds, and gives nothing otherwise. -/
def Undoes (decode : Decoder α) (d : Data) (a : α) (p : Prop) [Decidable p] : Prop :=
  ∀ depth, decode (d.clip depth) = if d.nesting ≤ depth ∧ p then some a else none

/-- A document that is not a list and not a record is never cut off. -/
theorem undoes_leaf {decode : Decoder α} {d : Data} {a : α} (hclip : ∀ depth, d.clip depth = d)
    (hnesting : d.nesting = 0) (h : decode d = some a) : Undoes decode d a True := by
  intro depth
  rw [hclip, h, hnesting]
  simp

@[simp] theorem clip_text (s : String) (depth : Nat) : (text s).clip depth = text s := by
  simp [clip]

@[simp] theorem clip_whole (n : Int) (depth : Nat) : (whole n).clip depth = whole n := by
  simp [clip]

@[simp] theorem clip_double (x : Double) (depth : Nat) : (double x).clip depth = double x := by
  simp [clip]

@[simp] theorem nesting_text (s : String) : (text s).nesting = 0 := rfl

@[simp] theorem nesting_double (x : Double) : (double x).nesting = 0 := rfl

@[simp] theorem toText?_text (s : String) : (text s).toText? = some s := rfl

@[simp] theorem toDouble?_double (x : Double) : (double x).toDouble? = some x := rfl

@[simp] theorem clip_null (depth : Nat) : null.clip depth = null := by
  simp [clip]

@[simp] theorem clip_list_zero (items : List Data) : (list items).clip 0 = unusable := rfl

@[simp] theorem clip_record_zero (fields : List (String × Data)) :
    (record fields).clip 0 = unusable := rfl

@[simp] theorem clip_list_succ (items : List Data) (depth : Nat) :
    (list items).clip (depth + 1) = list (items.map (·.clip depth)) := by
  rw [clip, clipIn_eq_map]

@[simp] theorem clip_record_succ (fields : List (String × Data)) (depth : Nat) :
    (record fields).clip (depth + 1) = record (fields.map fun f => (f.1, f.2.clip depth)) := by
  rw [clip, clipOf_eq_map]

@[simp] theorem open?_unusable (names : List String) : open? names unusable = none := rfl

theorem nesting_list (items : List Data) :
    (list items).nesting = nesting.nestingIn items + 1 := rfl

theorem nesting_record (fields : List (String × Data)) :
    (record fields).nesting = nesting.nestingOf fields + 1 := rfl

/-- A document cut off at the top has no value. -/
theorem undoes_of_succ {decode : Decoder α} {d : Data} {a : α} {p : Prop} [Decidable p]
    (hzero : decode (d.clip 0) = none) (hpos : 0 < d.nesting)
    (hsucc : ∀ depth, decode (d.clip (depth + 1))
      = if d.nesting ≤ depth + 1 ∧ p then some a else none) :
    Undoes decode d a p := by
  intro depth
  cases depth with
  | zero => rw [hzero, if_neg (by omega)]
  | succ depth => exact hsucc depth

theorem ite_none_bind {p : Prop} [Decidable p] (o : Option α) (f : α → Option β) :
    (if p then o else none).bind f = if p then o.bind f else none := by
  split <;> rfl

/-! ## Lists, pairs and values that may be absent -/

/-- A list is decoded member by member. -/
theorem mapM_clip {decode : Decoder α} {encode : α → Data} {p : α → Prop} [DecidablePred p]
    {items : List α} (h : ∀ a ∈ items, Undoes decode (encode a) a (p a)) (depth : Nat) :
    (items.map fun a => (encode a).clip depth).mapM decode
      = if (∀ a ∈ items, (encode a).nesting ≤ depth) ∧ ∀ a ∈ items, p a then some items
        else none := by
  induction items with
  | nil => simp
  | cons a items ih =>
    have hhead := h a List.mem_cons_self depth
    have htail := ih fun b hb => h b (List.mem_cons_of_mem _ hb)
    rw [List.map_cons, List.mapM_cons, hhead, htail]
    by_cases hone : (encode a).nesting ≤ depth ∧ p a
    · by_cases hall : (∀ a ∈ items, (encode a).nesting ≤ depth) ∧ ∀ a ∈ items, p a
      · rw [if_pos hone, if_pos hall, if_pos (by simp_all)]
        rfl
      · rw [if_pos hone, if_neg hall, if_neg (by simp_all)]
        rfl
    · rw [if_neg hone]
      refine (if_neg ?_).symm
      rintro ⟨hn, hp⟩
      exact hone ⟨hn a List.mem_cons_self, hp a List.mem_cons_self⟩

theorem undoes_list {decode : Decoder α} {encode : α → Data} {p : α → Prop} [DecidablePred p]
    {items : List α} (h : ∀ a ∈ items, Undoes decode (encode a) a (p a)) :
    Undoes (toList? decode) (list (items.map encode)) items (∀ a ∈ items, p a) := by
  refine undoes_of_succ rfl (by rw [nesting_list]; omega) fun depth => ?_
  have hnesting : (list (items.map encode)).nesting ≤ depth + 1
      ↔ ∀ a ∈ items, (encode a).nesting ≤ depth := by
    rw [nesting_list, Nat.succ_le_succ_iff, nestingIn_le_iff, List.forall_mem_map]
  rw [clip_list_succ, toList?, List.map_map]
  simp only [hnesting]
  exact mapM_clip h depth

/-- A list whose members are decoded under no condition. -/
theorem undoes_list_of {decode : Decoder α} {encode : α → Data} (items : List α)
    (h : ∀ a, Undoes decode (encode a) a True) :
    Undoes (toList? decode) (list (items.map encode)) items True := by
  intro depth
  rw [undoes_list (fun a _ => h a) depth]
  simp

theorem undoes_pair {first : Decoder α} {second : Decoder β} {d e : Data} {a : α} {b : β}
    (ha : Undoes first d a True) (hb : Undoes second e b True) :
    Undoes (toPair? first second) (list [d, e]) (a, b) True := by
  refine undoes_of_succ rfl (by rw [nesting_list]; omega) fun depth => ?_
  have hnesting : (list [d, e]).nesting ≤ depth + 1 ↔ d.nesting ≤ depth ∧ e.nesting ≤ depth := by
    rw [nesting_list, Nat.succ_le_succ_iff, nestingIn_le_iff]
    simp
  simp only [clip_list_succ, List.map_cons, List.map_nil, toPair?, Option.bind_eq_bind, ha depth,
    hb depth, ite_none_bind, Option.bind_some, hnesting, and_true, ite_and]
  rfl

/-- Reads a value that may be null. -/
def maybe? (decode : Decoder α) : Decoder (Option α)
  | null => some none
  | d => (decode d).map some

theorem maybe_eq (fields : Fields) (name : String) (decode : Decoder α) :
    fields.maybe name decode = (fields name).elim (some none) (maybe? decode) := by
  unfold Fields.maybe
  cases fields name with
  | none => rfl
  | some d => cases d <;> rfl

theorem withDefault_eq (fields : Fields) (name : String) (value : α) (decode : Decoder α) :
    fields.withDefault name value decode = (fields name).elim (some value) decode := by
  unfold Fields.withDefault
  cases fields name <;> rfl

/-- A value that is never written as a null may be absent. -/
theorem undoes_maybe {decode : Decoder α} {encode : α → Data}
    (hnull : ∀ a depth, (encode a).clip depth ≠ null) {o : Option α}
    (h : ∀ a, o = some a → Undoes decode (encode a) a True) :
    Undoes (maybe? decode) (ofMaybe encode o) o True := by
  cases o with
  | none => exact undoes_leaf (fun _ => clip_null _) rfl rfl
  | some a =>
    intro depth
    have hmaybe : maybe? decode ((encode a).clip depth)
        = (decode ((encode a).clip depth)).map some := by
      have := hnull a depth
      cases hd : (encode a).clip depth <;> first | rfl | exact absurd hd this
    rw [ofMaybe, hmaybe, h a rfl depth]
    split <;> rfl

end Data

namespace NameMap

variable {α : Type}

theorem insertEntry_of_forall_lt {name : String} {value : α} {l : List (String × α)}
    (h : ∀ e ∈ l, e.1 < name) : insertEntry name value l = l ++ [(name, value)] := by
  induction l with
  | nil => rfl
  | cons e l ih =>
    have hlt := h e List.mem_cons_self
    have hne : ¬name = e.1 := fun heq => by
      rw [heq] at hlt
      exact String.lt_irrefl _ hlt
    rw [insertEntry, if_neg (String.lt_asymm hlt), if_neg hne,
      ih fun f hf => h f (List.mem_cons_of_mem _ hf)]
    rfl

theorem entries_foldl_insert {l : List (String × α)} {m : NameMap α}
    (h : (m.entries ++ l).Pairwise fun a b => a.1 < b.1) :
    (l.foldl (fun m entry => m.insert entry.1 entry.2) m).entries = m.entries ++ l := by
  induction l generalizing m with
  | nil => simp
  | cons e l ih =>
    have hinsert : (m.insert e.1 e.2).entries = m.entries ++ [e] :=
      insertEntry_of_forall_lt fun f hf =>
        (List.pairwise_append.1 h).2.2 f hf e List.mem_cons_self
    rw [List.foldl_cons, ih (by rw [hinsert, List.append_assoc]; exact h), hinsert,
      List.append_assoc]
    rfl

/-- A map is the map of its entries. -/
theorem ofList_entries (m : NameMap α) : ofList m.entries = m := by
  have h := entries_foldl_insert (l := m.entries) (m := empty) (by simpa [empty] using m.sorted)
  have hentries : (ofList m.entries).entries = m.entries := by simpa [ofList, empty] using h
  cases hm : ofList m.entries
  cases m
  simp_all

end NameMap

/-- A row limit that is a number fits in 64 bits. -/
def Limit.Fits : Limit → Prop
  | .count n => n < UInt64.size
  | .parameter _ => True

namespace Saved

open Data

/-! ## Words -/

theorem toWord?_text {α : Type} {all : List α} {word : α → String} {a : α}
    (h : all.find? (word · = word a) = some a) : toWord? all word (.text (word a)) = some a := h

@[simp] theorem toJoinKind?_word (k : JoinKind) : toJoinKind? (.text k.word) = some k :=
  toWord?_text (by cases k <;> decide)

@[simp] theorem toFilterOperator?_sql (o : FilterOperator) :
    toFilterOperator? (.text o.sql) = some o :=
  toWord?_text (by cases o <;> decide)

@[simp] theorem toComparison?_sql (o : Comparison) : toComparison? (.text o.sql) = some o :=
  toWord?_text (by cases o <;> decide)

@[simp] theorem toConnector?_sql (c : Connector) : toConnector? (.text c.sql) = some c :=
  toWord?_text (by cases c <;> decide)

@[simp] theorem toFunction?_sql (f : AggregateFunction) : toFunction? (.text f.sql) = some f :=
  toWord?_text (by cases f <;> decide)

@[simp] theorem toDirection?_sql (d : SortDirection) : toDirection? (.text d.sql) = some d :=
  toWord?_text (by cases d <;> decide)

@[simp] theorem toRole?_word (r : SubqueryRole) : toRole? (.text r.word) = some r :=
  toWord?_text (by cases r <;> decide)

/-! ## Records without blocks -/

theorem undoes_text (s : String) : Undoes toText? (.text s) s True :=
  undoes_leaf (fun _ => clip_text _ _) rfl rfl

theorem undoes_ofId (id : EntityId) : Undoes toId? (ofId id) id True :=
  undoes_leaf (fun _ => clip_text _ _) rfl rfl

@[simp] theorem clip_ofId (id : EntityId) (depth : Nat) : (ofId id).clip depth = ofId id :=
  clip_text id.text depth

@[simp] theorem nesting_ofId (id : EntityId) : (ofId id).nesting = 0 := rfl

@[simp] theorem toId?_ofId (id : EntityId) : toId? (ofId id) = some id := rfl

theorem undoes_maybeText (o : Option String) :
    Undoes (maybe? toText?) (ofMaybe .text o) o True :=
  undoes_maybe (fun s _ => by rw [clip_text]; exact Data.noConfusion) fun s _ => undoes_text s

theorem undoes_maybeId (o : Option EntityId) : Undoes (maybe? toId?) (ofMaybe ofId o) o True :=
  undoes_maybe (fun id _ => by rw [ofId, clip_text]; exact Data.noConfusion) fun id _ =>
    undoes_ofId id

/-- A limit is read back if its number fits in 64 bits. -/
theorem undoes_maybeLimit {limit : Option Limit} (h : ∀ l, limit = some l → l.Fits) :
    Undoes (maybe? toLimit?) (ofMaybe ofLimit limit) limit True := by
  refine undoes_maybe (fun l _ => ?_) fun l hl => ?_
  · cases l <;> simp [ofLimit]
  · cases l with
    | parameter s => exact undoes_leaf (fun _ => clip_text _ _) rfl rfl
    | count n =>
      refine undoes_leaf (fun _ => clip_whole _ _) rfl ?_
      have hn : n ≤ UInt64.size - 1 := Nat.le_pred_of_lt (h _ hl)
      show ((Data.whole (Int.ofNat n)).toNat? (UInt64.size - 1)).map Limit.count = some (.count n)
      rw [toNat?, if_pos hn]
      rfl

theorem undoes_ofPosition (p : Position) : Undoes toPosition? (ofPosition p) p True := by
  refine undoes_of_succ rfl (Nat.succ_pos _) fun depth => ?_
  simp [ofPosition, toPosition?, nesting_record, nesting.nestingOf, open?, Fields.required]

theorem undoes_ofFrame (f : Frame) : Undoes toFrame? (ofFrame f) f True := by
  refine undoes_of_succ rfl (Nat.succ_pos _) fun depth => ?_
  simp [ofFrame, toFrame?, nesting_record, nesting.nestingOf, open?, Fields.required]

theorem undoes_ofColumnAggregate (a : ColumnAggregate) :
    Undoes toColumnAggregate? (ofColumnAggregate a) a True := by
  refine undoes_of_succ rfl (Nat.succ_pos _) fun depth => ?_
  simp [ofColumnAggregate, toColumnAggregate?, nesting_record, nesting.nestingOf, open?,
    Fields.required, maybe_eq, undoes_maybeText _ depth, ite_none_bind]

theorem undoes_aggregates (m : NameMap ColumnAggregate) :
    Undoes (toList? (toPair? toText? toColumnAggregate?))
      (.list (m.entries.map fun entry => .list [.text entry.1, ofColumnAggregate entry.2]))
      m.entries True :=
  undoes_list_of m.entries fun entry =>
    undoes_pair (undoes_text entry.1) (undoes_ofColumnAggregate entry.2)

theorem undoes_ofTable (t : Table) : Undoes toTable? (ofTable t) t True := by
  refine undoes_of_succ rfl (Nat.succ_pos _) fun depth => ?_
  simp [ofTable, toTable?, nesting_record, nesting.nestingOf, open?, Fields.required,
    withDefault_eq, maybe_eq, undoes_ofPosition _ depth,
    undoes_list_of _ undoes_text depth, undoes_aggregates _ depth, undoes_maybeId _ depth,
    ite_none_bind, NameMap.ofList_entries, ite_and]

theorem undoes_ofJoin (j : Join) : Undoes toJoin? (ofJoin j) j True := by
  refine undoes_of_succ rfl (Nat.succ_pos _) fun depth => ?_
  simp [ofJoin, toJoin?, nesting_record, nesting.nestingOf, open?, Fields.required,
    withDefault_eq]

/-- Either of the two fields of an operand gives the operand back. -/
theorem operand_of_fields (o : Operand) :
    (o.subquery?.map Operand.subquery).getD (.value (o.value?.getD "")) = o := by
  cases o <;> rfl

theorem undoes_ofFilter (f : Filter) : Undoes toFilter? (ofFilter f) f True := by
  refine undoes_of_succ rfl (Nat.succ_pos _) fun depth => ?_
  simp [ofFilter, toFilter?, nesting_record, nesting.nestingOf, open?, Fields.required,
    withDefault_eq, maybe_eq, undoes_maybeId _ depth, ite_none_bind,
    operand_of_fields]

theorem undoes_ofGrouping (g : Grouping) : Undoes toGrouping? (ofGrouping g) g True := by
  refine undoes_of_succ rfl (Nat.succ_pos _) fun depth => ?_
  simp [ofGrouping, toGrouping?, nesting_record, nesting.nestingOf, open?, Fields.required]

theorem undoes_ofHaving (h : Having) : Undoes toHaving? (ofHaving h) h True := by
  refine undoes_of_succ rfl (Nat.succ_pos _) fun depth => ?_
  simp [ofHaving, toHaving?, nesting_record, nesting.nestingOf, open?, Fields.required,
    withDefault_eq]

theorem undoes_ofSortTerm (o : SortTerm) : Undoes toSortTerm? (ofSortTerm o) o True := by
  refine undoes_of_succ rfl (Nat.succ_pos _) fun depth => ?_
  simp [ofSortTerm, toSortTerm?, nesting_record, nesting.nestingOf, open?, Fields.required,
    withDefault_eq]

theorem undoes_ofSelectAggregate (a : SelectAggregate) :
    Undoes toSelectAggregate? (ofSelectAggregate a) a True := by
  refine undoes_of_succ rfl (Nat.succ_pos _) fun depth => ?_
  simp [ofSelectAggregate, toSelectAggregate?, nesting_record, nesting.nestingOf, open?,
    Fields.required, withDefault_eq, maybe_eq, undoes_maybeText _ depth,
    ite_none_bind]

end Saved

/-! ## Blocks -/

mutual

/-- How many blocks nest in a block, counting the block itself. -/
def Block.levels : Block → Nat
  | ⟨_, _, _, _, _, _, _, _, subs⟩ => Block.levelsIn subs + 1

/-- How many blocks nest in the members of a list of nested queries. -/
def Block.levelsIn : List (SubqueryOf Block) → Nat
  | [] => 0
  | ⟨_, _, _, _, _, b⟩ :: rest => max b.levels (Block.levelsIn rest)

end

theorem Block.levels_eq (b : Block) : b.levels = Block.levelsIn b.subqueries + 1 := by
  cases b
  rw [Block.levels]

theorem Block.levelsIn_le_iff {subs : List Subquery} {n : Nat} :
    Block.levelsIn subs ≤ n ↔ ∀ s ∈ subs, s.block.levels ≤ n := by
  induction subs with
  | nil => simp [Block.levelsIn]
  | cons s rest ih => simp [Block.levelsIn, ih]

namespace Saved

open Data

theorem ofNested_eq_map (subs : List Subquery) :
    ofNested subs = subs.map fun s =>
      ofSubquery ⟨s.id, s.role, s.aliasName, s.linkedFilter, s.frame, ofBlock s.block⟩ := by
  induction subs with
  | nil => rfl
  | cons s rest ih => rw [ofNested, ih, List.map_cons]

/-- A nested query is read back if its block is. -/
theorem undoes_ofSubquery {block : Decoder Block} {s : Subquery} {p : Prop} [Decidable p]
    (h : Undoes block (ofBlock s.block) s.block p) :
    Undoes (toSubquery? block)
      (ofSubquery ⟨s.id, s.role, s.aliasName, s.linkedFilter, s.frame, ofBlock s.block⟩) s p := by
  refine undoes_of_succ rfl (Nat.succ_pos _) fun depth => ?_
  simp [ofSubquery, toSubquery?, nesting_record, nesting.nestingOf, open?, Fields.required,
    withDefault_eq, maybe_eq, undoes_maybeText _ depth, undoes_maybeId _ depth,
    undoes_ofFrame _ depth, h depth, ite_none_bind, ite_and]

/-- A block is read back from its document by a reader that goes into as many blocks as nest in
it. -/
theorem undoes_ofBlock (n : Nat) {b : Block}
    (h : ∀ inner ∈ b.blocks, ∀ l, inner.limit = some l → l.Fits) :
    Undoes (toBlock? n) (ofBlock b) b (b.levels ≤ n) := by
  induction n generalizing b with
  | zero =>
    intro depth
    rw [toBlock?, if_neg (by rw [Block.levels_eq]; omega)]
  | succ n ih =>
    have hlimit := undoes_maybeLimit (h b b.self_mem_blocks)
    have hsubs := undoes_list fun (s : Subquery) hs => undoes_ofSubquery
      (ih fun inner hinner => h inner (Block.mem_blocks.2 (.inr ⟨s, hs, hinner⟩)))
    rw [Block.levels_eq]
    refine undoes_of_succ (by cases b; rfl) (by cases b; exact Nat.succ_pos _) fun depth => ?_
    obtain ⟨tables, joins, filters, groupBy, having, orderBy, limit, aggregates, subs⟩ := b
    simp [ofBlock, toBlock?, toBlockWith?, nesting_record, nesting.nestingOf, open?,
      withDefault_eq, maybe_eq, undoes_list_of _ undoes_ofTable depth,
      undoes_list_of _ undoes_ofJoin depth, undoes_list_of _ undoes_ofFilter depth,
      undoes_list_of _ undoes_ofGrouping depth, undoes_list_of _ undoes_ofHaving depth,
      undoes_list_of _ undoes_ofSortTerm depth, undoes_list_of _ undoes_ofSelectAggregate depth,
      hlimit depth, ofNested_eq_map, hsubs depth, Block.levelsIn_le_iff, ite_none_bind,
      ite_and]

theorem undoes_ofCte {n : Nat} {q : Cte}
    (h : ∀ inner ∈ q.block.blocks, ∀ l, inner.limit = some l → l.Fits) :
    Undoes (toCte? (toBlock? n)) (ofCte q) q (q.block.levels ≤ n) := by
  refine undoes_of_succ rfl (Nat.succ_pos _) fun depth => ?_
  simp [ofCte, toCte?, nesting_record, nesting.nestingOf, open?, Fields.required, withDefault_eq,
    undoes_ofFrame _ depth, undoes_ofBlock n h depth, ite_none_bind, ite_and]

/-! ## Documents -/

theorem height_lt_of_mem_list {items : List Data} {d : Data} (h : d ∈ items) :
    d.height < (list items).height := by
  rw [height, Nat.lt_succ_iff]
  induction items with
  | nil => cases h
  | cons first rest ih =>
    rw [height.heightIn]
    rcases List.mem_cons.1 h with rfl | h
    · exact Nat.le_max_left _ _
    · exact (ih h).trans (Nat.le_max_right _ _)

theorem height_lt_of_mem_record {fields : List (String × Data)} {f : String × Data}
    (h : f ∈ fields) : f.2.height < (record fields).height := by
  rw [height, Nat.lt_succ_iff]
  induction fields with
  | nil => cases h
  | cons first rest ih =>
    rw [height.heightOf]
    rcases List.mem_cons.1 h with rfl | h
    · exact Nat.le_max_left _ _
    · exact (ih h).trans (Nat.le_max_right _ _)

/-- The document of a block has more levels than blocks nest in the block. -/
theorem levels_le_height (b : Block) : b.levels ≤ (ofBlock b).height := by
  induction b using Block.tree_induction with
  | step b ih =>
    have hlist : (list (ofNested b.subqueries)).height < (ofBlock b).height := by
      cases b
      exact height_lt_of_mem_record (f := ("subqueries", _)) (by simp)
    have hsubs : Block.levelsIn b.subqueries ≤ (list (ofNested b.subqueries)).height := by
      refine Block.levelsIn_le_iff.2 fun s hs => ?_
      have hblock : (ofBlock s.block).height < (ofSubquery
          ⟨s.id, s.role, s.aliasName, s.linkedFilter, s.frame, ofBlock s.block⟩).height :=
        height_lt_of_mem_record (f := ("context", ofBlock s.block)) (by simp)
      have hmember : (ofSubquery
          ⟨s.id, s.role, s.aliasName, s.linkedFilter, s.frame, ofBlock s.block⟩).height
            < (list (ofNested b.subqueries)).height := by
        rw [ofNested_eq_map]
        exact height_lt_of_mem_list (List.mem_map_of_mem hs)
      have := ih s hs
      omega
    rw [Block.levels_eq]
    omega

/-- The document of a canvas has more levels than blocks nest in any of its blocks. -/
theorem levels_le_height_encode (c : Canvas) :
    c.root.levels ≤ (encode c).height ∧ ∀ q ∈ c.ctes, q.block.levels ≤ (encode c).height := by
  constructor
  · have hroot : (ofBlock c.root).height < (encode c).height :=
      height_lt_of_mem_record (f := ("root", ofBlock c.root)) (by simp)
    have := levels_le_height c.root
    omega
  · intro q hq
    have hctes : (list (c.ctes.map ofCte)).height < (encode c).height :=
      height_lt_of_mem_record (f := ("ctes", _)) (by simp)
    have hcte : (ofCte q).height < (list (c.ctes.map ofCte)).height :=
      height_lt_of_mem_list (List.mem_map_of_mem hq)
    have hblock : (ofBlock q.block).height < (ofCte q).height :=
      height_lt_of_mem_record (f := ("context", ofBlock q.block)) (by simp)
    have := levels_le_height q.block
    omega

/-- Reads a canvas with the number of its format, given a reader of blocks. -/
def toVersionedWith? (block : Decoder Block) : Decoder (Nat × Canvas) := fun d => do
  let f ← d.open? ["version", "ctes", "root"]
  let found ← f.withDefault "version" version (toNat? (UInt32.size - 1))
  let ctes ← f.withDefault "ctes" [] (toList? (toCte? block))
  let root ← f.withDefault "root" Block.empty block
  return (found, { ctes, root })

theorem toVersioned?_eq (d : Data) : toVersioned? d = toVersionedWith? (toBlock? d.height) d := rfl

theorem undoes_encode (n : Nat) {c : Canvas}
    (h : ∀ b ∈ c.blocks, ∀ l, b.limit = some l → l.Fits) :
    Undoes (toVersionedWith? (toBlock? n)) (encode c) (version, c)
      ((∀ q ∈ c.ctes, q.block.levels ≤ n) ∧ c.root.levels ≤ n) := by
  have hroot := undoes_ofBlock n fun b hb => h b (List.mem_append_left _ hb)
  have hctes := undoes_list fun (q : Cte) hq => undoes_ofCte (n := n) fun b hb =>
    h b (List.mem_append_right _ (List.mem_flatMap.2 ⟨q, hq, hb⟩))
  have hleaf : (whole version).nesting = 0 := rfl
  refine undoes_of_succ rfl (Nat.succ_pos _) fun depth => ?_
  simp [encode, toVersionedWith?, nesting_record, nesting.nestingOf, open?, withDefault_eq,
    hroot depth, hctes depth, hleaf, ite_none_bind, ite_and]
  split_ifs <;> rfl

/-- A document that is read deep enough gives the canvas it was made of, and one that is not gives
none. -/
theorem decode_encode {c : Canvas} (h : ∀ b ∈ c.blocks, ∀ l, b.limit = some l → l.Fits)
    (depth : Nat) :
    decode ((encode c).clip depth)
      = if (encode c).nesting ≤ depth then .ok c else .error .malformed := by
  have hread := undoes_encode ((encode c).clip depth).height h depth
  rw [decode, toVersioned?_eq, hread]
  by_cases hdeep : (encode c).nesting ≤ depth
  · obtain ⟨hroot, hctes⟩ := levels_le_height_encode c
    rw [clip_eq_self _ hdeep, if_pos ⟨hdeep, hctes, hroot⟩, if_pos hdeep]
    rfl
  · rw [if_neg (fun hall => hdeep hall.1), if_neg hdeep]

end Saved

/-! ## Numbers of a canvas -/

/-- The numerals of the coordinates of a frame read back. -/
structure Frame.Storable (f : Frame) : Prop where
  x : Json.ReadsBack f.x
  y : Json.ReadsBack f.y
  width : Json.ReadsBack f.width
  height : Json.ReadsBack f.height

/-- The numbers of a block can be stored: the numerals of its coordinates read back, and a limit
fits in 64 bits. -/
structure Block.Storable (b : Block) : Prop where
  positions : ∀ t ∈ b.tables, Json.ReadsBack t.position.x ∧ Json.ReadsBack t.position.y
  frames : ∀ s ∈ b.subqueries, s.frame.Storable
  limit : ∀ l, b.limit = some l → l.Fits

/-- The numbers of a canvas can be stored. -/
structure Canvas.Storable (c : Canvas) : Prop where
  blocks : ∀ b ∈ c.blocks, b.Storable
  frames : ∀ q ∈ c.ctes, q.frame.Storable

namespace Saved

open Data Json

@[simp] theorem writable_ofId (id : EntityId) : Writable (ofId id) := .text id.text

@[simp] theorem writable_maybeText (o : Option String) : Writable (ofMaybe .text o) := by
  cases o <;> simp [ofMaybe]

@[simp] theorem writable_maybeId (o : Option EntityId) : Writable (ofMaybe ofId o) := by
  cases o <;> simp [ofMaybe]

theorem writable_maybeLimit {limit : Option Limit} (h : ∀ l, limit = some l → l.Fits) :
    Writable (ofMaybe ofLimit limit) := by
  cases limit with
  | none => exact .null
  | some l =>
    cases l with
    | parameter s => exact .text s
    | count n => exact .whole (h _ rfl)

theorem writable_ofFrame {f : Frame} (h : f.Storable) : Writable (ofFrame f) := by
  simp [ofFrame, h.x, h.y, h.width, h.height]

theorem writable_ofTable {t : Table} (h : ReadsBack t.position.x ∧ ReadsBack t.position.y) :
    Writable (ofTable t) := by
  have hposition : Writable (ofPosition t.position) := by simp [ofPosition, h.1, h.2]
  have haggregates : Writable (.list (t.aggregates.entries.map fun entry =>
      .list [.text entry.1, ofColumnAggregate entry.2])) :=
    .list (List.forall_mem_map.2 fun entry _ => by simp [ofColumnAggregate])
  refine .record ?_
  simp only [List.forall_mem_cons]
  exact ⟨writable_ofId _, .text _, hposition, by simp, by simp, haggregates, writable_maybeId _,
    List.forall_mem_nil _⟩

/-- The document of a block can be written if the numbers of all blocks in it can be stored. -/
theorem writable_ofBlock (b : Block) (h : ∀ inner ∈ b.blocks, inner.Storable) :
    Writable (ofBlock b) := by
  induction b using Block.tree_induction with
  | step b ih =>
    have hself := h b b.self_mem_blocks
    have hlimit := writable_maybeLimit hself.limit
    have htables := fun t ht => writable_ofTable (hself.positions t ht)
    have hsubs : ∀ s ∈ b.subqueries, Writable (ofBlock s.block) ∧ Writable (ofFrame s.frame) :=
      fun s hs => ⟨ih s hs fun inner hinner => h inner (Block.mem_blocks.2 (.inr ⟨s, hs, hinner⟩)),
        writable_ofFrame (hself.frames s hs)⟩
    obtain ⟨tables, joins, filters, groupBy, having, orderBy, limit, aggregates, subs⟩ := b
    simp only at hlimit htables hsubs
    simp [ofBlock, ofNested_eq_map, ofSubquery, ofJoin, ofFilter, ofGrouping, ofHaving, ofSortTerm,
      ofSelectAggregate, hlimit]
    exact ⟨htables, fun s hs => ⟨(hsubs s hs).2, (hsubs s hs).1⟩⟩

theorem writable_encode {c : Canvas} (h : c.Storable) : Writable (encode c) := by
  have hroot := writable_ofBlock c.root fun b hb => h.blocks b (List.mem_append_left _ hb)
  have hctes : ∀ q ∈ c.ctes, Writable (ofBlock q.block) ∧ Writable (ofFrame q.frame) :=
    fun q hq => ⟨writable_ofBlock q.block fun b hb =>
      h.blocks b (List.mem_append_right _ (List.mem_flatMap.2 ⟨q, hq, hb⟩)),
      writable_ofFrame (h.frames q hq)⟩
  have hversion : Writable (.whole version) := .whole (by decide)
  have hlist : Writable (.list (c.ctes.map ofCte)) := by
    simpa [ofCte] using fun q hq => (hctes q hq).symm
  exact .record (List.forall_mem_cons.2 ⟨hversion, List.forall_mem_cons.2
    ⟨hlist, List.forall_mem_singleton.2 hroot⟩⟩)

/-! ## Storing and loading -/

theorem textNesting_write_canvas (c : Canvas) :
    textNesting (Saved.write c) = (encode c).nesting :=
  textNesting_write (some 0) (encode c)

/-- A canvas whose text nests at most 127 arrays and objects is loaded as it was stored, and any
other text is refused as malformed. -/
theorem read_write {c : Canvas} (h : c.Storable) :
    read (Saved.write c)
      = if textNesting (Saved.write c) ≤ 127 then .ok c else .error .malformed := by
  have hlimits : ∀ b ∈ c.blocks, ∀ l, b.limit = some l → l.Fits := fun b hb =>
    (h.blocks b hb).limit
  have hdocument : Json.read? (Saved.write c) = some ((encode c).clip 127) :=
    readWithin?_write (writable_encode h) (some 0) 127
  rw [read, hdocument, textNesting_write_canvas]
  exact decode_encode hlimits 127

/-- A canvas with coordinates that have a fraction and a sign, a named query, a nested query that a
filter compares with, a text that needs escapes, and a limit. -/
def sampleCanvas : Canvas :=
  { ctes := [{ id := ⟨"q"⟩, name := "recent", frame, block := inner }]
    root :=
      { inner with
        filters := [⟨⟨"f"⟩, "orders.\"id\"\n", .isIn, .subquery ⟨"s"⟩, .or⟩]
        limit := some (.count 18446744073709551615)
        subqueries := [⟨⟨"s"⟩, .whereClause, none, some ⟨"f"⟩, frame, inner⟩] } }
where
  /-- A negative number that takes all its digits. -/
  x : Double := { negative := true, rank := 4611698363106811186 }
  y : Double := { negative := false, rank := 4607182418800017408 }
  frame : Frame := ⟨x, y, y, x⟩
  inner : Block :=
    { Block.empty with
      tables :=
        [{ Table.create ⟨"t"⟩ "orders" ["id"] ⟨x, y⟩ with
            selected := ["id"], aggregates := NameMap.ofList [("id", ⟨.sum, some "s"⟩)]
            cte := some ⟨"q"⟩ }] }

theorem storable_sampleCanvas : sampleCanvas.Storable := by
  have hx : ReadsBack sampleCanvas.x := by decide +kernel
  have hy : ReadsBack sampleCanvas.y := by decide +kernel
  have hframe : sampleCanvas.frame.Storable := ⟨hx, hy, hy, hx⟩
  have hinner : sampleCanvas.inner.Storable :=
    ⟨by simp [sampleCanvas.inner, Table.create, hx, hy], by simp [sampleCanvas.inner, Block.empty],
      by simp [sampleCanvas.inner, Block.empty]⟩
  have hroot : sampleCanvas.root.Storable := by
    refine ⟨hinner.positions, by simp [sampleCanvas, hframe], ?_⟩
    rintro l ⟨⟩
    show 18446744073709551615 < UInt64.size
    decide
  refine ⟨?_, by simp [sampleCanvas, hframe]⟩
  have hblocks : sampleCanvas.blocks
      = [sampleCanvas.root, sampleCanvas.inner, sampleCanvas.inner] := rfl
  rw [hblocks]
  simp [hroot, hinner]

/-- The sample canvas is loaded as it was stored. -/
theorem read_write_sampleCanvas :
    sampleCanvas.Storable ∧ textNesting (Saved.write sampleCanvas) ≤ 127 ∧
      read (Saved.write sampleCanvas) = .ok sampleCanvas := by
  have hnesting : textNesting (Saved.write sampleCanvas) ≤ 127 := by
    rw [textNesting_write_canvas]
    decide +kernel
  refine ⟨storable_sampleCanvas, hnesting, ?_⟩
  rw [read_write storable_sampleCanvas, if_pos hnesting]

end Saved
end QueryCanvas
