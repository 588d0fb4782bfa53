import Suixinji.Local.Spaces
import Suixinji.Relational.Table

/-! Notes in PostgreSQL (repositories/postgres/notes.py): the three tables that
`update_note_metadata` writes in one transaction. -/
namespace Suixinji.Notes
open Suixinji.Relational Suixinji.Local

structure Note where
  id : String
  messageId : String
  tenantId : String
  spaceId : String
  createdAt : String
  title : String
  noteType : String
  summary : String
  text : String
  enrichmentStatus : String := "ready"
  enrichmentAttempts : Nat := 0
  enrichmentError : Option String := none
  enrichmentStartedAt : Option String := none
  enrichmentUpdatedAt : Option String := none
  sensitivity : String := "normal"
  deriving DecidableEq

structure NoteTag where
  noteId : String
  tag : String
  deriving DecidableEq

structure NoteRelation where
  sourceNoteId : String
  targetNoteId : String
  relation : String := "related"
  createdAt : String
  deriving DecidableEq

def NoteTag.key (t : NoteTag) : String × String := (t.noteId,t.tag)

def NoteRelation.key (r : NoteRelation) : String × String × String := (r.sourceNoteId,r.targetNoteId,r.relation)

structure Db where
  notes : Table Note.id
  tags : Table NoteTag.key
  relations : Table NoteRelation.key

/-- The keyword arguments of `update_note_metadata`, each of which may be left out. -/
structure Updates where
  title : Option String := none
  type : Option String := none
  summary : Option String := none
  text : Option String := none
  enrichmentStatus : Option String := none
  enrichmentAttempts : Option Nat := none
  enrichmentError : Option (Option String) := none
  sensitivity : Option String := none
  enrichmentStartedAt : Option (Option String) := none
  enrichmentUpdatedAt : Option (Option String) := none
  tags : Option (List String) := none
  related : Option (List String) := none

/-- `parse_datetime(updates[key]) if updates[key] else None` -/
def time (value : Option String) : Option String := value.filter (fun ts => ts ≠ "")

def Updates.texts (u : Updates) : List String :=
  [u.title,u.type,u.summary,u.text,u.enrichmentStatus,u.enrichmentError.join,u.sensitivity].reduceOption ++ u.tags.getD [] ++ u.related.getD []

/-- What `parse_datetime` and the columns take: no NUL in a text, and a count of four bytes. -/
def Updates.Fits (u : Updates) : Prop :=
  (∀ text ∈ u.texts, Char.ofNat 0 ∉ text.toList) ∧ (∀ n ∈ u.enrichmentAttempts, n < 2147483648) ∧
  (∀ ts ∈ time u.enrichmentStartedAt.join, isoformatted ts) ∧ (∀ ts ∈ time u.enrichmentUpdatedAt.join, isoformatted ts) ∧
  (∀ v ∈ u.type, v.length ≤ 64) ∧ (∀ v ∈ u.enrichmentStatus, v.length ≤ 32) ∧ ∀ v ∈ u.sensitivity, v.length ≤ 64

instance (u : Updates) : Decidable u.Fits := by unfold Updates.Fits; infer_instance

/-- The columns of `values` that are set. -/
def Updates.set (u : Updates) (n : Note) : Note :=
  {n with
    title := u.title.getD n.title
    noteType := u.type.getD n.noteType
    summary := u.summary.getD n.summary
    text := u.text.getD n.text
    enrichmentStatus := u.enrichmentStatus.getD n.enrichmentStatus
    enrichmentAttempts := u.enrichmentAttempts.getD n.enrichmentAttempts
    enrichmentError := u.enrichmentError.getD n.enrichmentError
    sensitivity := u.sensitivity.getD n.sensitivity
    enrichmentStartedAt := (u.enrichmentStartedAt.map time).getD n.enrichmentStartedAt
    enrichmentUpdatedAt := (u.enrichmentUpdatedAt.map time).getD n.enrichmentUpdatedAt}

theorem Updates.set_id (u : Updates) (n : Note) : (u.set n).id = n.id := rfl

section
variable {ρ κ : Type} {key : ρ → κ} [DecidableEq κ]

/-- The rows of a note are deleted, and others are inserted; none when the foreign key,
the length of the column or the primary key refuses. -/
def replace (db : Db) (t : Table key) (owner : ρ → String) (noteId : String) (rows : List ρ) (fits : Bool) : Option (Table key) :=
  if fits ∧ (rows = [] ∨ (db.notes.find? noteId).isSome) then (t.filter (fun r => owner r ≠ noteId)).insertAll rows else none

theorem mem_replace {db : Db} {t t' : Table key} {owner : ρ → String} {noteId : String} {rows : List ρ} {fits : Bool}
    (ok : replace db t owner noteId rows fits = some t') (r : ρ) : r ∈ t' ↔ r ∈ t ∧ owner r ≠ noteId ∨ r ∈ rows := by
  unfold replace at ok
  split at ok
  · rw [Table.mem_def,Table.rows_insertAll ok,List.mem_append,← Table.mem_def,Table.mem_filter]
    simp
  · cases ok

theorem replace_isSome {db : Db} {t : Table key} {owner : ρ → String} {noteId : String} {rows : List ρ} {fits : Bool}
    (own : ∀ r ∈ rows, owner r = noteId) (keyed : ∀ r r' : ρ, key r = key r' → owner r = owner r') :
    (replace db t owner noteId rows fits).isSome ↔ fits ∧ (rows = [] ∨ (db.notes.find? noteId).isSome) ∧ (rows.map key).Nodup := by
  unfold replace
  split
  · rename_i passed
    constructor
    · intro there
      obtain ⟨t',ok⟩ := Option.isSome_iff_exists.mp there
      have all := t'.keyed
      rw [Table.rows_insertAll ok,List.map_append] at all
      exact ⟨passed.1,passed.2,(List.nodup_append.mp all).2.1⟩
    · rintro ⟨-,-,distinct⟩
      obtain ⟨t',ok⟩ := Table.insertAll_of_fresh (t.filter (fun r => owner r ≠ noteId)) rows distinct (fun r inside q kept same => by
        have other := (Table.mem_filter.mp kept).2
        rw [keyed q r same,own r inside] at other
        simp at other)
      rw [ok]
      rfl
  · rename_i refused
    constructor
    · intro there
      cases there
    · rintro ⟨fit,known,-⟩
      exact absurd ⟨fit,known⟩ refused
end

def setTags (db : Db) (noteId : String) (tags : List String) : Option (Table NoteTag.key) :=
  replace db db.tags NoteTag.noteId noteId (tags.map (NoteTag.mk noteId)) (tags.all (fun tag => tag.length ≤ 255))

def setRelated (db : Db) (noteId : String) (related : List String) (now : String) : Option (Table NoteRelation.key) :=
  replace db db.relations NoteRelation.sourceNoteId noteId
    (related.map (fun target => ⟨noteId,target,"related",now⟩)) (related.all (fun target => target.length ≤ 255))

/-- `if "tags" in updates` -/
def newTags (db : Db) (noteId : String) : Option (List String) → Option (Table NoteTag.key)
  | none => some db.tags
  | some tags => setTags db noteId tags

/-- `if "related" in updates` -/
def newRelations (db : Db) (noteId now : String) : Option (List String) → Option (Table NoteRelation.key)
  | none => some db.relations
  | some related => setRelated db noteId related now

/-- None when an exception rolls the transaction back. -/
def updateNoteMetadata (db : Db) (spaceId noteId : String) (u : Updates) (now : String) : Option Db :=
  if u.Fits then do
    let notes := db.notes.updateWhere (fun n => n.spaceId = spaceId ∧ n.id = noteId) u.set u.set_id
    let tags ← newTags db noteId u.tags
    let relations ← newRelations db noteId now u.related
    some {notes,tags,relations}
  else none

def Outside (db : Db) (spaceId noteId : String) : Prop := ∃ n ∈ db.notes, n.id = noteId ∧ n.spaceId ≠ spaceId

structure Kept (spaceId : String) (db db' : Db) : Prop where
  notes : ∀ n, n.spaceId ≠ spaceId → (n ∈ db.notes ↔ n ∈ db'.notes)
  tags : ∀ t, Outside db spaceId t.noteId → (t ∈ db.tags ↔ t ∈ db'.tags)
  relations : ∀ r, Outside db spaceId r.sourceNoteId → (r ∈ db.relations ↔ r ∈ db'.relations)

/-- The arguments pass the checks of the columns and keys. -/
structure Taken (u : Updates) : Prop where
  fits : u.Fits
  tags : ∀ tags ∈ u.tags, tags.Nodup ∧ ∀ tag ∈ tags, tag.length ≤ 255
  related : ∀ related ∈ u.related, related.Nodup ∧ ∀ target ∈ related, target.length ≤ 255

/-- The tags or relations given are not those stored. -/
def Differs (db : Db) (noteId : String) (u : Updates) (now : String) : Prop :=
  (∃ tags ∈ u.tags, ∃ tag, ¬(⟨noteId,tag⟩ ∈ db.tags ↔ tag ∈ tags)) ∨
  ∃ related ∈ u.related, ∃ target relation createdAt,
    ¬(⟨noteId,target,relation,createdAt⟩ ∈ db.relations ↔ target ∈ related ∧ relation = "related" ∧ createdAt = now)

variable {db db' : Db} {spaceId noteId now : String} {u : Updates}

theorem outside_known (outside : Outside db spaceId noteId) : (db.notes.find? noteId).isSome := by
  obtain ⟨n,there,rfl,-⟩ := outside
  rw [Table.find?_mem there]
  rfl

theorem setTags_isSome {tags : List String} (outside : Outside db spaceId noteId) :
    (setTags db noteId tags).isSome ↔ tags.Nodup ∧ ∀ tag ∈ tags, tag.length ≤ 255 := by
  have distinct : ((tags.map (NoteTag.mk noteId)).map NoteTag.key).Nodup ↔ tags.Nodup := by
    rw [List.map_map]
    exact List.nodup_map_iff (fun a b same => (Prod.mk.inj same).2)
  refine (replace_isSome (by simp) (fun r r' same => (Prod.mk.inj same).1)).trans ?_
  refine (and_congr_right' (and_congr_right' distinct)).trans ?_
  simp [outside_known outside,and_comm]

theorem setRelated_isSome {related : List String} (outside : Outside db spaceId noteId) :
    (setRelated db noteId related now).isSome ↔ related.Nodup ∧ ∀ target ∈ related, target.length ≤ 255 := by
  have distinct : ((related.map (fun target => (⟨noteId,target,"related",now⟩ : NoteRelation))).map NoteRelation.key).Nodup ↔ related.Nodup := by
    rw [List.map_map]
    exact List.nodup_map_iff (fun a b same => (Prod.mk.inj (Prod.mk.inj same).2).1)
  refine (replace_isSome (by simp) (fun r r' same => (Prod.mk.inj same).1)).trans ?_
  refine (and_congr_right' (and_congr_right' distinct)).trans ?_
  simp [outside_known outside,and_comm]

theorem mem_setTags {tags : List String} {t' : Table NoteTag.key} (ok : setTags db noteId tags = some t') (t : NoteTag) :
    t ∈ t' ↔ if t.noteId = noteId then t.tag ∈ tags else t ∈ db.tags := by
  rw [mem_replace ok t]
  obtain ⟨owner,tag⟩ := t
  by_cases own : owner = noteId
  · subst own
    simp
  · simp [own,Ne.symm own]

theorem mem_setRelated {related : List String} {t' : Table NoteRelation.key} (ok : setRelated db noteId related now = some t') (r : NoteRelation) :
    r ∈ t' ↔ if r.sourceNoteId = noteId then r.targetNoteId ∈ related ∧ r.relation = "related" ∧ r.createdAt = now else r ∈ db.relations := by
  rw [mem_replace ok r]
  obtain ⟨source,target,relation,createdAt⟩ := r
  by_cases own : source = noteId
  · subst own
    simp
    grind
  · simp [own,Ne.symm own]

theorem updated_notes {n : Note} (other : n.spaceId ≠ spaceId) :
    n ∈ db.notes.updateWhere (fun n => n.spaceId = spaceId ∧ n.id = noteId) u.set u.set_id ↔ n ∈ db.notes := by
  rw [Table.mem_updateWhere]
  constructor
  · rintro ⟨old,there,rfl⟩
    split
    · rename_i mine
      rw [if_pos mine] at other
      exact absurd (of_decide_eq_true mine).1 other
    · exact there
  · intro there
    exact ⟨n,there,if_neg (by simp [other])⟩

theorem update_parts (ok : updateNoteMetadata db spaceId noteId u now = some db') :
    u.Fits ∧ db'.notes = db.notes.updateWhere (fun n => n.spaceId = spaceId ∧ n.id = noteId) u.set u.set_id ∧
      (u.tags = none ∧ db'.tags = db.tags ∨ ∃ tags, u.tags = some tags ∧ setTags db noteId tags = some db'.tags) ∧
      (u.related = none ∧ db'.relations = db.relations ∨
        ∃ related, u.related = some related ∧ setRelated db noteId related now = some db'.relations) := by
  unfold updateNoteMetadata at ok
  split at ok
  · rename_i fits
    obtain ⟨tags,hTags,ok⟩ := Option.bind_eq_some_iff.mp ok
    obtain ⟨relations,hRelations,ok⟩ := Option.bind_eq_some_iff.mp ok
    cases Option.some.inj ok
    refine ⟨fits,rfl,?_,?_⟩
    · cases given : u.tags with
      | none =>
        rw [given] at hTags
        exact .inl ⟨rfl,(Option.some.inj hTags).symm⟩
      | some tags =>
        rw [given] at hTags
        exact .inr ⟨tags,rfl,hTags⟩
    · cases given : u.related with
      | none =>
        rw [given] at hRelations
        exact .inl ⟨rfl,(Option.some.inj hRelations).symm⟩
      | some related =>
        rw [given] at hRelations
        exact .inr ⟨related,rfl,hRelations⟩
  · cases ok

theorem update_isSome (outside : Outside db spaceId noteId) : (updateNoteMetadata db spaceId noteId u now).isSome ↔ Taken u := by
  constructor
  · intro there
    obtain ⟨db',ok⟩ := Option.isSome_iff_exists.mp there
    obtain ⟨fits,-,tags,related⟩ := update_parts ok
    refine ⟨fits,fun given mine => ?_,fun given mine => ?_⟩
    · obtain ⟨no,-⟩ | ⟨tags,some,ok⟩ := tags
      · rw [no] at mine
        cases mine
      · rw [some] at mine
        cases mine
        exact (setTags_isSome outside).mp (Option.isSome_of_eq_some ok)
    · obtain ⟨no,-⟩ | ⟨related,some,ok⟩ := related
      · rw [no] at mine
        cases mine
      · rw [some] at mine
        cases mine
        exact (setRelated_isSome outside).mp (Option.isSome_of_eq_some ok)
  · rintro ⟨fits,tags,related⟩
    have there : (newTags db noteId u.tags).isSome := by
      cases given : u.tags with
      | none => rfl
      | some tags' => exact (setTags_isSome outside).mpr (tags _ given)
    have there' : (newRelations db noteId now u.related).isSome := by
      cases given : u.related with
      | none => rfl
      | some related' => exact (setRelated_isSome outside).mpr (related _ given)
    obtain ⟨t,ok⟩ := Option.isSome_iff_exists.mp there
    obtain ⟨t',ok'⟩ := Option.isSome_iff_exists.mp there'
    simp [updateNoteMetadata,if_pos fits,ok,ok']

/-- The rows of other spaces stay unless the call is made with the note of another space,
is taken, and gives tags or relations that are not those stored. -/
theorem kept_iff : Kept spaceId db ((updateNoteMetadata db spaceId noteId u now).getD db) ↔
    ¬(Outside db spaceId noteId ∧ Taken u ∧ Differs db noteId u now) := by
  constructor
  · rintro kept ⟨outside,taken,differs⟩
    have commits : (updateNoteMetadata db spaceId noteId u now).isSome := (update_isSome outside).mpr taken
    obtain ⟨db',ok⟩ := Option.isSome_iff_exists.mp commits
    rw [ok,Option.getD_some] at kept
    obtain ⟨-,-,tags,related⟩ := update_parts ok
    rcases differs with ⟨given,mine,tag,other⟩ | ⟨given,mine,target,relation,createdAt,other⟩
    · obtain ⟨no,-⟩ | ⟨tags,some,ok⟩ := tags
      · rw [no] at mine
        cases mine
      · rw [some] at mine
        cases mine
        refine other ((kept.tags ⟨noteId,tag⟩ outside).trans ?_)
        rw [mem_setTags ok]
        simp
    · obtain ⟨no,-⟩ | ⟨related,some,ok⟩ := related
      · rw [no] at mine
        cases mine
      · rw [some] at mine
        cases mine
        refine other ((kept.relations ⟨noteId,target,relation,createdAt⟩ outside).trans ?_)
        rw [mem_setRelated ok]
        simp
  · intro same
    cases result : updateNoteMetadata db spaceId noteId u now with
    | none => exact ⟨fun _ _ => Iff.rfl,fun _ _ => Iff.rfl,fun _ _ => Iff.rfl⟩
    | some db' =>
      rw [Option.getD_some]
      obtain ⟨-,notes,tags,related⟩ := update_parts result
      have equal (outside : Outside db spaceId noteId) : ¬Differs db noteId u now := fun differs =>
        same ⟨outside,(update_isSome outside).mp (Option.isSome_of_eq_some result),differs⟩
      refine ⟨fun n other => ?_,fun t outside => ?_,fun r outside => ?_⟩
      · rw [notes,updated_notes other]
      · obtain ⟨-,rows⟩ | ⟨given,some,ok⟩ := tags
        · rw [rows]
        · rw [mem_setTags ok]
          split
          · rename_i own
            by_contra other
            refine equal (own ▸ outside) (.inl ⟨given,some,t.tag,?_⟩)
            subst own
            exact other
          · rfl
      · obtain ⟨-,rows⟩ | ⟨given,some,ok⟩ := related
        · rw [rows]
        · rw [mem_setRelated ok]
          split
          · rename_i own
            by_contra other
            refine equal (own ▸ outside) (.inr ⟨given,some,r.targetNoteId,r.relation,r.createdAt,?_⟩)
            subst own
            exact other
          · rfl

/-- A space of the local back end does not see the calls of another when the names keep
the files of the two apart; in PostgreSQL its rows stay unless its note is given, with
other tags or relations. -/
theorem separate (reading : Reading) (s t : String) (db : Db) (noteId : String) (u : Updates) (now : String) :
    (Unseen reading s t ↔ Apart s t) ∧
      (Kept s db ((updateNoteMetadata db s noteId u now).getD db) ↔ ¬(Outside db s noteId ∧ Taken u ∧ Differs db noteId u now)) :=
  ⟨unseen_iff reading s t,kept_iff⟩

/-- A note of space b with a tag. -/
def tagged : Db where
  notes := ⟨[{
    id := "n"
    messageId := "m"
    tenantId := "default"
    spaceId := "b"
    createdAt := "2026-08-01"
    title := "text"
    noteType := "other"
    summary := "text"
    text := "text"}],by simp⟩
  tags := ⟨[⟨"n","x"⟩],by simp⟩
  relations := Table.empty

/-- Two spaces with one log, and a call for space a that removes the tags of the note. -/
theorem mixed : ("a/b" ≠ "a_b" ∧
      loads (after ⟨fun _ => none,fun text => ⟨text,[],"other",text⟩⟩ noFiles [.append (sample "a/b" "2026-08-01")]) "a_b" ≠ loads noFiles "a_b") ∧
    ¬Kept "a" tagged ((updateNoteMetadata tagged "a" "n" {tags := some []} "2026-08-02").getD tagged) := by
  refine ⟨⟨by decide,shared_log (by decide) (sample "a/b" "2026-08-01") rfl⟩,?_⟩
  rw [kept_iff,not_not]
  refine ⟨⟨_,List.mem_cons_self,rfl,by simp⟩,⟨by decide,by simp,by simp⟩,.inl ⟨[],rfl,"x",?_⟩⟩
  simp [tagged,Table.mem_def]

end Suixinji.Notes
