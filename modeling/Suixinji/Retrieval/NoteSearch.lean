import Mathlib.Data.List.Dedup
import Mathlib.Data.Prod.Lex
import Mathlib.Data.String.Basic
import Suixinji.Ask.Plan
import Suixinji.Notes.Rows
import Suixinji.Relational.Window
import Suixinji.Retrieval.Fusion

/-! The notes that PostgreSQL finds (repositories/postgres/notes.py): `_query_notes`, `_weighted_note_rrf` and `hybrid_search_notes`, in
exact arithmetic. -/
namespace Suixinji.Retrieval.NoteSearch
open Suixinji.Relational Suixinji.Notes Suixinji.Window Suixinji.Local
open Suixinji.Ranking (roundTo roundTo_mono)

/-- What is read of the environment, and what the database does: the time that a column holds, its order of texts by sort keys, the hits of
a channel among some notes, in their order. A note with two embeddings can be a hit twice. -/
structure Settings where
  instant : String → ℤ
  sortKey : String → String
  sortKey_injective : Function.Injective sortKey
  containsSensitiveData : String → Bool
  noteQueryTerms : String → List String
  channelHits : String → String → List Note → List Note
  channelHits_subset : ∀ channel query notes, channelHits channel query notes ⊆ notes
  trigramEnabled : Bool := true
  weighted : Bool := true
  rrfK : ℤ := 60
  weights : List (String × ℚ) := [("exact",33/20),("fts",9/10),("lexical",13/20),("trigram",1/2),("vector",27/20)]

structure Listed where
  note : Note
  tags : List String
  related : List String
  deriving DecidableEq

/-- `_load_parts` and `_as_note`. -/
def asNote (db : Db) (n : Note) : Listed :=
  { note := n
    tags := (db.tags.rows.filter (·.noteId = n.id)).map NoteTag.tag
    related := (db.relations.rows.filter (·.sourceNoteId = n.id)).map NoteRelation.targetNoteId }

structure Filters where
  spaceId : String
  noteType : Option String := none
  tags : List String := []
  matchAllTags : Bool := true
  createdAfter : Option ℤ := none
  enrichmentStatuses : Option (List String) := none
  limit : ℤ := 30

/-- `sorted(set(tags or []))` -/
def Filters.requestedTags (f : Filters) : List String := f.tags.dedup.insertionSort (· ≤ ·)

/-- `SELECT note_id WHERE tag IN (..) GROUP BY note_id`, and all of the tags are counted where all have to match. -/
def Filters.tagIds (f : Filters) (db : Db) : List String :=
  let tagged := db.tags.rows.filter (·.tag ∈ f.requestedTags)
  (tagged.map NoteTag.noteId).dedup.filter (fun id =>
    !f.matchAllTags || ((tagged.filter (·.noteId = id)).map NoteTag.tag).dedup.length = f.requestedTags.length)

/-- The conditions of the statement, each of which is left out where its argument is empty. -/
def Filters.statement (cfg : Settings) (f : Filters) (db : Db) (n : Note) : Bool :=
  n.spaceId = f.spaceId && n.sensitivity = "normal" &&
  (match f.noteType with
    | none => true
    | some t => t = "" || n.noteType = t) &&
  (match f.createdAfter with
    | none => true
    | some time => time ≤ cfg.instant n.createdAt) &&
  (match f.enrichmentStatuses with
    | none => true
    | some statuses => statuses = [] || n.enrichmentStatus ∈ statuses) &&
  (f.requestedTags = [] || n.id ∈ f.tagIds db)

def Filters.boundedLimit (f : Filters) : Nat := (max 1 (min f.limit 500)).toNat

/-- Newest first, of two with one time the greater id. -/
def Settings.newest (cfg : Settings) (n : Note) : ℤ ×ₗ String := toLex (cfg.instant n.createdAt,cfg.sortKey n.id)

/-- `_query_notes`. -/
def queryNotes (cfg : Settings) (db : Db) (f : Filters) : List Listed :=
  let rows := (sortDesc cfg.newest (db.notes.rows.filter (f.statement cfg db))).take (f.boundedLimit * 4)
  ((rows.map (asNote db)).filter (fun n => !cfg.containsSensitiveData n.note.text)).take f.boundedLimit

abbrev Channels := List (String × List Note)

/-- The dicts `rows`, `scores` and `channels_by_id`. -/
structure Fused where
  rows : Table Note.id := .empty
  scores : String → ℚ := fun _ => 0
  channelsById : String → List String := fun _ => []

def weight (cfg : Settings) (channel : String) : ℚ := if cfg.weighted then (cfg.weights.lookup channel).getD 1 else 1

def contribution (cfg : Settings) (channel : String) (rank : Nat) : ℚ := weight cfg channel / (max 1 cfg.rrfK + rank)

def Fused.add (cfg : Settings) (fused : Fused) (entry : String × Note × Nat) : Fused :=
  let (channel,row,rank) := entry
  { rows := fused.rows.upsert row
    scores := Function.update fused.scores row.id (fused.scores row.id + contribution cfg channel rank)
    channelsById := Function.update fused.channelsById row.id (fused.channelsById row.id ++ [channel]) }

def entries (channels : Channels) : List (String × Note × Nat) :=
  channels.flatMap (fun c => (c.2.zipIdx 1).map (fun ranked => (c.1,ranked)))

def fuse (cfg : Settings) (channels : Channels) : Fused := (entries channels).foldl (Fused.add cfg) {}

def Settings.ranked (cfg : Settings) (scores : String → ℚ) (n : Note) : ℚ ×ₗ ℤ ×ₗ String :=
  toLex (scores n.id,toLex (cfg.instant n.createdAt,n.id))

def rrfLimit (limit : ℤ) : Nat := (max 1 (min limit 50)).toNat

/-- `_weighted_note_rrf`. -/
def weightedNoteRrf (cfg : Settings) (channels : Channels) (limit : ℤ) : List (Note × ℚ × List String) :=
  let fused := fuse cfg channels
  ((sortDesc (cfg.ranked fused.scores) fused.rows.rows).take (rrfLimit limit)).map (fun n => (n,fused.scores n.id,fused.channelsById n.id))

structure Search where
  spaceId : String
  query : String
  /-- There is an embedding of the query, with 1024 dimensions. -/
  embedded : Bool := false
  limit : ℤ := 8

def Search.boundedLimit (q : Search) : Nat := (max 1 (min q.limit 30)).toNat

def Search.retrievalLimit (q : Search) : Nat := max 20 (min 100 (q.boundedLimit * 4))

/-- The channels that are asked, and have hits. -/
def channels (cfg : Settings) (db : Db) (q : Search) : Channels :=
  let cleaned := Ask.clean q.query
  let base := db.notes.rows.filter (fun n => n.spaceId = q.spaceId && n.sensitivity = "normal")
  let terms := cfg.noteQueryTerms cleaned
  let asked := ["exact","fts"] ++ (if terms ≠ [] then ["lexical"] ++ (if cfg.trigramEnabled then ["trigram"] else []) else []) ++
    (if q.embedded then ["vector"] else [])
  if cleaned = "" then [] else
    (asked.map (fun channel => (channel,(cfg.channelHits channel cleaned base).take q.retrievalLimit))).filter (fun c => c.2 ≠ [])

structure Found extends Listed where
  score : ℚ
  retrievalChannels : List String
  deriving DecidableEq

def searchIn (cfg : Settings) (db : Db) (bounded : Nat) (channels : Channels) : List Found :=
  (((weightedNoteRrf cfg channels (bounded * 2)).filter (fun r => !cfg.containsSensitiveData r.1.text)).map (fun r =>
    { asNote db r.1 with score := roundTo 6 r.2.1,retrievalChannels := r.2.2 : Found })).take bounded

/-- `hybrid_search_notes`. -/
def hybridSearchNotes (cfg : Settings) (db : Db) (q : Search) : List Found := searchIn cfg db q.boundedLimit (channels cfg db q)

def Filters.Satisfied (cfg : Settings) (f : Filters) (db : Db) (n : Note) : Prop :=
  n.spaceId = f.spaceId ∧ (∀ t ∈ f.noteType, t ≠ "" → n.noteType = t) ∧ (∀ time ∈ f.createdAfter, time ≤ cfg.instant n.createdAt) ∧
    (∀ statuses ∈ f.enrichmentStatuses, statuses ≠ [] → n.enrichmentStatus ∈ statuses) ∧
    (f.tags ≠ [] → if f.matchAllTags then ∀ tag ∈ f.tags, ⟨n.id,tag⟩ ∈ db.tags else ∃ tag ∈ f.tags, ⟨n.id,tag⟩ ∈ db.tags)

instance (cfg : Settings) (f : Filters) (db : Db) (n : Note) : Decidable (f.Satisfied cfg db n) := by
  unfold Filters.Satisfied
  infer_instance

def Settings.visible (cfg : Settings) (n : Note) : Bool := !cfg.containsSensitiveData n.text

def matching (cfg : Settings) (db : Db) (f : Filters) : List Note :=
  db.notes.rows.filter (fun n => f.Satisfied cfg db n ∧ n.sensitivity = "normal")

/-- The first of them in order that are not sensitive by their text either. -/
def newestVisible (cfg : Settings) (db : Db) (f : Filters) : List Listed :=
  ((sortDesc cfg.newest ((matching cfg db f).filter cfg.visible)).take f.boundedLimit).map (asNote db)

def scoreOf (cfg : Settings) (channels : Channels) (id : String) : ℚ :=
  (((entries channels).filter (·.2.1.id = id)).map (fun e => contribution cfg e.1 e.2.2)).sum

def unionOf (channels : Channels) : List Note := (channels.flatMap Prod.snd).dedup

/-- As many notes as there are that may be shown, each once, the better ones first, whatever the order of the channels. -/
structure Complete (cfg : Settings) (db : Db) (bounded : Nat) (channels : Channels) : Prop where
  all : (searchIn cfg db bounded channels).length = min bounded ((unionOf channels).countP cfg.visible)
  once : ((searchIn cfg db bounded channels).map (·.note.id)).Nodup
  ordered : (searchIn cfg db bounded channels).Pairwise (fun a b => b.score ≤ a.score)
  orderFree : ∀ channels', channels'.Perm channels →
    (searchIn cfg db bounded channels').map (fun found => (found.note,found.score)) =
      (searchIn cfg db bounded channels).map (fun found => (found.note,found.score))

section Tags

variable {cfg : Settings} {db : Db} {f : Filters} {n : Note}

theorem mem_requestedTags {tag : String} : tag ∈ f.requestedTags ↔ tag ∈ f.tags := by
  rw [Filters.requestedTags,(List.perm_insertionSort _ _).mem_iff,List.mem_dedup]

theorem requestedTags_nodup : f.requestedTags.Nodup := ((List.perm_insertionSort _ _).nodup_iff).mpr (List.nodup_dedup f.tags)

theorem length_eq_iff_subset {xs ys : List String} (distinct : xs.Nodup) (distinct' : ys.Nodup) (inside : xs ⊆ ys) :
    xs.length = ys.length ↔ ys ⊆ xs := by
  have sub := List.subperm_of_subset distinct inside
  exact ⟨fun size => (sub.perm_of_length_le size.ge).symm.subset,fun back => (sub.antisymm (List.subperm_of_subset distinct' back)).length_eq⟩

theorem mem_counted {tag : String} :
    tag ∈ (((db.tags.rows.filter (·.tag ∈ f.requestedTags)).filter (·.noteId = n.id)).map NoteTag.tag).dedup ↔
      tag ∈ f.tags ∧ ⟨n.id,tag⟩ ∈ db.tags := by
  simp only [List.mem_dedup,List.mem_map,List.mem_filter,decide_eq_true_eq,mem_requestedTags]
  constructor
  · rintro ⟨⟨noteId,tag⟩,⟨⟨there,wanted⟩,rfl⟩,rfl⟩
    exact ⟨wanted,there⟩
  · rintro ⟨wanted,there⟩
    exact ⟨⟨n.id,tag⟩,⟨⟨there,wanted⟩,rfl⟩,rfl⟩

/-- The statement counts the requested tags of a note: all of them where it carries each. -/
theorem mem_tagIds : n.id ∈ f.tagIds db ↔
    (∃ tag ∈ f.tags, ⟨n.id,tag⟩ ∈ db.tags) ∧ (f.matchAllTags → ∀ tag ∈ f.tags, ⟨n.id,tag⟩ ∈ db.tags) := by
  have grouped : n.id ∈ (((db.tags.rows.filter (·.tag ∈ f.requestedTags)).map NoteTag.noteId).dedup) ↔ ∃ tag ∈ f.tags, ⟨n.id,tag⟩ ∈ db.tags := by
    simp only [List.mem_dedup,List.mem_map,List.mem_filter,decide_eq_true_eq,mem_requestedTags]
    constructor
    · rintro ⟨⟨noteId,tag⟩,⟨there,wanted⟩,rfl⟩
      exact ⟨tag,wanted,there⟩
    · rintro ⟨tag,wanted,there⟩
      exact ⟨⟨n.id,tag⟩,⟨there,wanted⟩,rfl⟩
  have counted : (((db.tags.rows.filter (·.tag ∈ f.requestedTags)).filter (·.noteId = n.id)).map NoteTag.tag).dedup.length =
      f.requestedTags.length ↔ ∀ tag ∈ f.tags, ⟨n.id,tag⟩ ∈ db.tags := by
    rw [length_eq_iff_subset (List.nodup_dedup _) requestedTags_nodup (fun tag inside => mem_requestedTags.mpr (mem_counted.mp inside).1)]
    exact ⟨fun all tag wanted => (mem_counted.mp (all (mem_requestedTags.mpr wanted))).2,
      fun all tag wanted => mem_counted.mpr ⟨mem_requestedTags.mp wanted,all tag (mem_requestedTags.mp wanted)⟩⟩
  unfold Filters.tagIds
  rw [List.mem_filter,grouped,Bool.or_eq_true,decide_eq_true_eq,counted]
  cases f.matchAllTags <;> simp

theorem requestedTags_eq_nil : f.requestedTags = [] ↔ f.tags = [] := by
  simp only [List.eq_nil_iff_forall_not_mem,mem_requestedTags]

theorem statement_iff : f.statement cfg db n ↔ f.Satisfied cfg db n ∧ n.sensitivity = "normal" := by
  have tags : (f.requestedTags = [] ∨ n.id ∈ f.tagIds db) ↔
      (f.tags ≠ [] → if f.matchAllTags then ∀ tag ∈ f.tags, ⟨n.id,tag⟩ ∈ db.tags else ∃ tag ∈ f.tags, ⟨n.id,tag⟩ ∈ db.tags) := by
    rw [requestedTags_eq_nil,mem_tagIds]
    by_cases none : f.tags = []
    · simp [none]
    · obtain ⟨tag,wanted⟩ := List.exists_mem_of_ne_nil f.tags none
      cases f.matchAllTags with
      | false => simp [none]
      | true => simpa [none] using fun all => ⟨tag,wanted,all tag wanted⟩
  have type : (match f.noteType with | none => true | some t => t = "" || n.noteType = t) = true ↔
      ∀ t ∈ f.noteType, t ≠ "" → n.noteType = t := by
    cases f.noteType <;> simp [Decidable.or_iff_not_imp_left]
  have time : (match f.createdAfter with | none => true | some time => decide (time ≤ cfg.instant n.createdAt)) = true ↔
      ∀ time ∈ f.createdAfter, time ≤ cfg.instant n.createdAt := by
    cases f.createdAfter <;> simp
  have statuses : (match f.enrichmentStatuses with | none => true | some statuses => statuses = [] || n.enrichmentStatus ∈ statuses) = true ↔
      ∀ statuses ∈ f.enrichmentStatuses, statuses ≠ [] → n.enrichmentStatus ∈ statuses := by
    cases f.enrichmentStatuses <;> simp [Decidable.or_iff_not_imp_left]
  unfold Filters.statement Filters.Satisfied
  rw [← tags,← type,← time,← statuses]
  simp only [Bool.and_eq_true,Bool.or_eq_true,decide_eq_true_eq]
  constructor
  · rintro ⟨⟨⟨⟨⟨space,normal⟩,type⟩,time⟩,statuses⟩,tags⟩
    exact ⟨⟨space,type,time,statuses,tags⟩,normal⟩
  · rintro ⟨⟨space,type,time,statuses,tags⟩,normal⟩
    exact ⟨⟨⟨⟨⟨space,normal⟩,type⟩,time⟩,statuses⟩,tags⟩

end Tags

theorem rows_eq_matching (cfg : Settings) (db : Db) (f : Filters) : db.notes.rows.filter (f.statement cfg db) = matching cfg db f := by
  refine List.filter_congr (fun n _ => ?_)
  rw [Bool.eq_iff_iff,decide_eq_true_eq]
  exact statement_iff

theorem newest_injective (cfg : Settings) {a b : Note} (same : cfg.newest a = cfg.newest b) : a.id = b.id :=
  cfg.sortKey_injective (congrArg (fun k => (ofLex k).2) same)

theorem nodup_keys {κ : Type} {key : Note → κ} (tells : ∀ a b : Note, key a = key b → a.id = b.id) {rows : List Note}
    (distinct : (rows.map Note.id).Nodup) : (rows.map key).Nodup := by
  rw [List.nodup_iff_pairwise_ne,List.pairwise_map] at distinct ⊢
  exact distinct.imp (fun apart same => apart (tells _ _ same))

theorem queryNotes_iff (cfg : Settings) (db : Db) (f : Filters) : queryNotes cfg db f = newestVisible cfg db f ↔
    Uncrowded cfg.newest cfg.visible (matching cfg db f) f.boundedLimit (f.boundedLimit * 4) := by
  have distinct : ((matching cfg db f).map cfg.newest).Nodup :=
    nodup_keys (fun _ _ => newest_injective cfg) ((List.filter_sublist.map Note.id).nodup db.notes.keyed)
  have hidden (rows : List Note) : (rows.map (asNote db)).filter (fun n => !cfg.containsSensitiveData n.note.text) =
      (rows.filter cfg.visible).map (asNote db) := List.filter_map
  have reads : Function.Injective (asNote db) := fun a b same => congrArg Listed.note same
  unfold queryNotes newestVisible
  dsimp only
  rw [rows_eq_matching,hidden,← List.map_take,List.map_inj_right reads,uncrowded_iff distinct,filter_sortDesc distinct]

section Fusing

variable {cfg : Settings} {db : Db} {cs cs' : Channels} {es : List (String × Note × Nat)} {fused : Fused} {bounded : Nat}

theorem foldl_rows : (es.foldl (Fused.add cfg) fused).rows = (es.map (·.2.1)).foldl Table.upsert fused.rows := by
  induction es generalizing fused with
  | nil => rfl
  | cons e es ih => exact ih

theorem foldl_scores (id : String) : (es.foldl (Fused.add cfg) fused).scores id =
    fused.scores id + ((es.filter (·.2.1.id = id)).map (fun e => contribution cfg e.1 e.2.2)).sum := by
  induction es generalizing fused with
  | nil => simp
  | cons e es ih =>
    rw [List.foldl_cons,ih]
    by_cases here : e.2.1.id = id
    · subst here
      simp [Fused.add,add_assoc]
    · simp [Fused.add,here,Function.update_of_ne (Ne.symm here)]

theorem entries_rows (cs : Channels) : (entries cs).map (·.2.1) = cs.flatMap Prod.snd := by
  rw [entries,List.map_flatMap]
  refine List.flatMap_congr (fun c _ => ?_)
  rw [List.map_map]
  exact List.zipIdx_map_fst 1 c.2

theorem fuse_scores : (fuse cfg cs).scores = scoreOf cfg cs := by
  funext id
  rw [fuse,foldl_scores,zero_add]
  rfl

/-- An id always comes with the same row. -/
def Single (cs : Channels) : Prop := ∀ a ∈ cs.flatMap Prod.snd, ∀ b ∈ cs.flatMap Prod.snd, a.id = b.id → a = b

theorem fuse_rows (single : Single cs) : (fuse cfg cs).rows.rows.Perm (unionOf cs) := by
  refine (List.perm_ext_iff_of_nodup (fuse cfg cs).rows.keyed.of_map (List.nodup_dedup _)).mpr (fun n => ?_)
  have rows : (fuse cfg cs).rows = (cs.flatMap Prod.snd).foldl Table.upsert .empty := by
    rw [fuse,foldl_rows,entries_rows]
  rw [List.mem_dedup,rows]
  exact Table.mem_upserts single

theorem ranked_injective {scores : String → ℚ} {a b : Note} (same : cfg.ranked scores a = cfg.ranked scores b) : a.id = b.id :=
  congrArg (fun k => (ofLex (ofLex k).2).2) same

theorem union_keys (single : Single cs) (scores : String → ℚ) : ((unionOf cs).map (cfg.ranked scores)).Nodup := by
  refine (List.nodup_dedup _).map_on (fun a member b member' same => ?_)
  exact single a (List.mem_dedup.mp member) b (List.mem_dedup.mp member') (ranked_injective same)

def foundIn (cfg : Settings) (db : Db) (cs : Channels) (n : Note) : Found :=
  { asNote db n with score := roundTo 6 (scoreOf cfg cs n.id),retrievalChannels := (fuse cfg cs).channelsById n.id }

theorem searchIn_eq (single : Single cs) : searchIn cfg db bounded cs =
    ((((sortDesc (cfg.ranked (scoreOf cfg cs)) (unionOf cs)).take (rrfLimit (bounded * 2))).filter cfg.visible).take bounded).map
      (foundIn cfg db cs) := by
  have sorted : sortDesc (cfg.ranked (scoreOf cfg cs)) (fuse cfg cs).rows.rows = sortDesc (cfg.ranked (scoreOf cfg cs)) (unionOf cs) :=
    sortDesc_eq_of_perm (union_keys single _) (fuse_rows single)
  unfold searchIn weightedNoteRrf
  dsimp only
  rw [fuse_scores,sorted,List.filter_map,List.map_map,List.map_take]
  rfl

theorem entries_perm (perm : cs'.Perm cs) : (entries cs').Perm (entries cs) := perm.flatMap_right _

theorem scoreOf_perm (perm : cs'.Perm cs) : scoreOf cfg cs' = scoreOf cfg cs := by
  funext id
  exact (((entries_perm perm).filter _).map _).sum_eq

theorem union_perm (perm : cs'.Perm cs) : (unionOf cs').Perm (unionOf cs) := (perm.flatMap_right Prod.snd).dedup

theorem Single.perm (single : Single cs) (perm : cs'.Perm cs) : Single cs' := by
  have same := perm.flatMap_right Prod.snd
  exact fun a member b member' => single a (same.mem_iff.mp member) b (same.mem_iff.mp member')

end Fusing

theorem rrfLimit_double (bounded : Nat) (positive : 0 < bounded) : rrfLimit (bounded * 2) = min (bounded * 2) 50 := by
  unfold rrfLimit
  omega

theorem complete_iff {cfg : Settings} {db : Db} {cs : Channels} {bounded : Nat} (single : Single cs) : Complete cfg db bounded cs ↔
    Uncrowded (cfg.ranked (scoreOf cfg cs)) cfg.visible (unionOf cs) bounded (rrfLimit (bounded * 2)) := by
  have keys : ((unionOf cs).map (cfg.ranked (scoreOf cfg cs))).Nodup := union_keys single _
  have perm := sortDesc_perm (cfg.ranked (scoreOf cfg cs)) (unionOf cs)
  have size : (searchIn cfg db bounded cs).length = min bounded ((unionOf cs).countP cfg.visible) ↔
      Uncrowded (cfg.ranked (scoreOf cfg cs)) cfg.visible (unionOf cs) bounded (rrfLimit (bounded * 2)) := by
    rw [searchIn_eq single,List.length_map,uncrowded_iff keys,length_take_filter_take,perm.countP_eq]
  constructor
  · exact fun complete => size.mp complete.all
  · intro uncrowded
    have shown : (((sortDesc (cfg.ranked (scoreOf cfg cs)) (unionOf cs)).take (rrfLimit (bounded * 2))).filter cfg.visible).take bounded |>.Sublist
        (sortDesc (cfg.ranked (scoreOf cfg cs)) (unionOf cs)) :=
      ((List.take_sublist _ _).trans List.filter_sublist).trans (List.take_sublist _ _)
    refine ⟨size.mpr uncrowded,?_,?_,?_⟩
    · have ids : ((unionOf cs).map Note.id).Nodup :=
        (List.nodup_dedup _).map_on (fun a member b member' => single a (List.mem_dedup.mp member) b (List.mem_dedup.mp member'))
      rw [searchIn_eq single,List.map_map]
      exact (shown.map Note.id).nodup ((perm.map Note.id).nodup_iff.mpr ids)
    · rw [searchIn_eq single,List.pairwise_map]
      refine ((sortDesc_sorted _).sublist shown).imp (fun below => roundTo_mono 6 ?_)
      rcases Prod.Lex.toLex_le_toLex.mp below with less | ⟨same,_⟩
      · exact less.le
      · exact same.le
    · intro cs' reordered
      have single' := single.perm reordered
      rw [searchIn_eq single,searchIn_eq single',List.map_map,List.map_map,scoreOf_perm reordered,
        sortDesc_eq_of_perm keys (union_perm reordered)]
      refine List.map_congr_left (fun n _ => ?_)
      simp only [Function.comp_apply,foundIn,scoreOf_perm reordered]

theorem single_channels (cfg : Settings) (db : Db) (q : Search) : Single (channels cfg db q) := by
  have inside (n : Note) (member : n ∈ (channels cfg db q).flatMap Prod.snd) : n ∈ db.notes := by
    obtain ⟨c,there,hit⟩ := List.mem_flatMap.mp member
    by_cases empty : Ask.clean q.query = ""
    · simp [channels,empty] at there
    · simp only [channels,if_neg empty] at there
      obtain ⟨channel,_,rfl⟩ := List.mem_map.mp (List.mem_filter.mp there).1
      exact (List.mem_filter.mp (cfg.channelHits_subset _ _ _ (List.mem_of_mem_take hit))).1
  exact fun a member b member' same => db.notes.unique (inside a member) (inside b member') same

/-- Both searches give what may be shown exactly where no hidden note crowds out a visible one: of the visible ones that are wanted each is
among the first four times as many matches, and among the first twice as many fused notes, or fifty. -/
theorem searches_iff (cfg : Settings) (db : Db) (f : Filters) (q : Search) :
    (queryNotes cfg db f = newestVisible cfg db f ∧ Complete cfg db q.boundedLimit (channels cfg db q)) ↔
      Uncrowded cfg.newest cfg.visible (matching cfg db f) f.boundedLimit (f.boundedLimit * 4) ∧
        Uncrowded (cfg.ranked (scoreOf cfg (channels cfg db q))) cfg.visible (unionOf (channels cfg db q)) q.boundedLimit
          (min (q.boundedLimit * 2) 50) := by
  have positive : 0 < q.boundedLimit := by
    unfold Search.boundedLimit
    omega
  rw [queryNotes_iff,complete_iff (single_channels cfg db q),rrfLimit_double q.boundedLimit positive]

/-- Four notes about an identity card, and an older one about milk; the query is one character. -/
def fiveNotes : Db where
  notes := ⟨(["5","4","3","2","1"].map (fun day =>
    { id := day,messageId := day,tenantId := "default",spaceId := "p",createdAt := "2025-01-0" ++ day,title := "",noteType := "other",
      summary := "",text := if day = "1" then "记得买牛奶" else "身份证记在本子上" })),by decide +kernel⟩
  tags := .empty
  relations := .empty

def dayTimes : Settings where
  instant ts := 86400000000 * digits (ts.toList.drop 8)
  sortKey := id
  sortKey_injective := Function.injective_id
  containsSensitiveData text := text = "身份证记在本子上"
  noteQueryTerms _ := []
  channelHits channel _ notes := if channel = "exact" then notes else []
  channelHits_subset channel _ notes := by split <;> simp

theorem milk_crowded_out :
    (newestVisible dayTimes fiveNotes {spaceId := "p",limit := 1}).map (·.note.id) = ["1"] ∧
      queryNotes dayTimes fiveNotes {spaceId := "p",limit := 1} = [] ∧
      hybridSearchNotes dayTimes fiveNotes {spaceId := "p",query := "记",limit := 1} = [] ∧
      ¬Complete dayTimes fiveNotes 1 (channels dayTimes fiveNotes {spaceId := "p",query := "记",limit := 1}) := by
  have found : hybridSearchNotes dayTimes fiveNotes {spaceId := "p",query := "记",limit := 1} = [] := by decide +kernel
  refine ⟨by decide +kernel,by decide +kernel,found,fun complete => ?_⟩
  have size := complete.all
  have shown : (unionOf (channels dayTimes fiveNotes {spaceId := "p",query := "记",limit := 1})).countP dayTimes.visible = 1 := by decide +kernel
  rw [shown] at size
  change (hybridSearchNotes dayTimes fiveNotes {spaceId := "p",query := "记",limit := 1}).length = 1 at size
  rw [found] at size
  cases size

end Suixinji.Retrieval.NoteSearch
