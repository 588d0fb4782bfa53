import Suixinji.Preferences.Effects

/-! Preference cards in any order of steps: whoever looks for a card comes to the one that its
messages belong to, and a run leaves what whole operations leave, one after the other. -/
namespace Suixinji.Preferences
open Relational Checked Memories Transition Forest

variable {rt : Runtime} {t : Texts} {m n row old : Row} {next : MemoryId} {w : Wanted} {turns : Nat}

/-! ### Looking for a card -/

/-- What `find_card` checks of a card that another is merged into. -/
def Wanted.fits (w : Wanted) (row : Row) : Prop :=
  row.spaceId = w.spaceId ∧ row.subject = some w.subject ∧ row.scope.ownerId = w.ownerId

def Wanted.names (t : Texts) (w : Wanted) (row : Row) : Prop := row.spaceId = w.spaceId ∧ row.memoryKey = some (w.key t)

section
variable {s s' : Store Scope} {seen : List MemoryId}

theorem Wanted.fits_iff (carded : Carded t row) : w.fits row ↔
    row.spaceId = w.spaceId ∧ row.scope.card.subject = w.subject ∧ row.scope.card.ownerId = w.ownerId := by
  rw [Wanted.fits,carded.subject,carded.ownerId,Option.some.injEq]

theorem Wanted.fits_akin (akin : Akin m n) (carded : Carded t m) (carded' : Carded t n) : w.fits n ↔ w.fits m := by
  rw [Wanted.fits_iff carded,Wanted.fits_iff carded',akin.spaceId,akin.subject,akin.ownerId]

theorem Wanted.fits_kept (kept : Kept t row m) (carded : Carded t m) (carded' : Carded t row) : w.fits m ↔ w.fits row := by
  rcases kept with rfl | kept
  · rfl
  · exact Wanted.fits_akin ⟨kept.spaceId,kept.subject,kept.ownerId⟩ carded' carded

theorem Wanted.names.kept (names : w.names t row) (kept : Kept t row m) (carded : Carded t row) : w.names t m := by
  rcases kept with rfl | kept
  · exact names
  · refine ⟨kept.spaceId.trans names.1,?_⟩
    rw [(kept.carded carded).key,kept.subject,kept.preferenceObject,kept.ownerId,← carded.key]
    exact names.2

namespace Wellformed

theorem one_card (wellformed : Wellformed t s) (member : m ∈ s.memories) (there : n ∈ s.memories) (names : w.names t m)
    (names' : w.names t n) : n = m := by
  by_cases same : n.id = m.id
  · exact s.memories.unique there member same
  · exact absurd ⟨same,names'.1.trans names.1.symm,names'.2.trans names.2.symm,(wellformed.cards n there).version,
      (wellformed.cards m member).version⟩ (wellformed.apart m member n there)

theorem firstCard (wellformed : Wellformed t s) (w : Wanted) :
    (∃ m ∈ s.memories, w.names t m ∧ Preferences.firstCard t w s = .ok (some m)) ∨
      (∀ m ∈ s.memories, ¬w.names t m) ∧ Preferences.firstCard t w s = .ok none := by
  have chosen : ∀ m ∈ s.memories, (m.spaceId = w.spaceId && m.memoryType = .preference && m.memoryKey = some (w.key t)) ↔
      w.names t m := by
    intro m member
    have type := (wellformed.cards m member).memoryType
    simp [Wanted.names,type]
  unfold Preferences.firstCard
  by_cases there : ∃ m ∈ s.memories, w.names t m
  · obtain ⟨m,member,names⟩ := there
    refine .inl ⟨m,member,names,?_⟩
    rw [Table.filter_rows member (fun n inside => ?_)]
    rw [chosen n inside]
    constructor
    · exact fun names' => congrArg Memory.id (wellformed.one_card member inside names names')
    · intro same
      rwa [s.memories.unique inside member same]
  · refine .inr ⟨fun m member names => there ⟨m,member,names⟩,?_⟩
    rw [List.filter_eq_nil_iff.mpr (fun m member hit => there ⟨m,member,(chosen m member).mp hit⟩)]

/-- A turn of the loop of `find_card` never meets a card it has come by, and there always is a
next card, of the space, subject and owner of the one before. -/
theorem follow (wellformed : Wellformed t s) (step : link s old.id = some next)
    (behind : ∀ id ∈ seen, Relation.TransGen (Linked (link s)) id old.id) :
    ∃ m ∈ s.memories, ∃ n ∈ s.memories, m.id = old.id ∧ n.id = next ∧ Akin m n ∧
      (w.fits n → Preferences.follow w seen old next s = .ok (some n)) := by
  obtain ⟨m,found,_⟩ := Option.bind_eq_some_iff.mp step
  obtain ⟨member,same⟩ := Table.find?_eq_some.mp found
  obtain ⟨n,there,rfl,akin⟩ := wellformed.linked m member next (by rw [same]; exact step)
  refine ⟨m,member,n,there,same,rfl,akin,fun fits => ?_⟩
  have fresh : old.id ∉ seen := by
    intro again
    obtain ⟨r,ends⟩ := wellformed.ended old.id
    exact ends.acyclic (behind _ again)
  obtain ⟨space,subject,owner⟩ := fits
  simp [Preferences.follow,require,fresh,Table.find?_mem there,space,subject,owner,bind,Except.bind,pure,Except.pure]

/-- The cards of a chain are all of one kind. -/
theorem akin (wellformed : Wellformed t s) (member : m ∈ s.memories) {id : MemoryId} (leads : Leads (link s) m.id id) :
    ∃ n ∈ s.memories, n.id = id ∧ Akin m n := by
  induction leads with
  | refl => exact ⟨m,member,rfl,rfl,rfl,rfl⟩
  | tail _ step ih =>
    obtain ⟨n,there,rfl,akin⟩ := ih
    obtain ⟨next,inside,same,akin'⟩ := wellformed.linked n there _ step
    exact ⟨next,inside,same,akin'.spaceId.trans akin.spaceId,akin'.subject.trans akin.subject,akin'.ownerId.trans akin.ownerId⟩

/-- The loop of `find_card` comes to the end of the chain. -/
theorem walk (wellformed : Wellformed t s) (member : old ∈ s.memories) (fits : link s old.id ≠ none → w.fits old)
    (behind : ∀ id ∈ seen, Relation.TransGen (Linked (link s)) id old.id)
    (ended : link s (Forest.follow (link s) turns old.id) = none) :
    Preferences.walk w s turns seen (some old) = .ok (s.memories.find? (Forest.follow (link s) turns old.id)) := by
  induction turns generalizing old seen with
  | zero =>
    rw [Forest.follow,link_mem member] at ended
    rw [Preferences.walk.eq_def,Forest.follow,Table.find?_mem member]
    simp only [ended]
  | succ turns ih =>
    cases merged : old.scope.card.mergedInto with
    | none =>
      have step : link s old.id = none := (link_mem member).trans merged
      rw [Preferences.walk.eq_def,Forest.follow,step,Option.elim_none,Table.find?_mem member]
      simp only [merged]
    | some next =>
      have step : link s old.id = some next := (link_mem member).trans merged
      have fits := fits (by rw [step]; simp)
      obtain ⟨m,inside,n,there,same,rfl,akin,found⟩ := wellformed.follow (w := w) step behind
      obtain rfl := s.memories.unique inside member same
      have fits' : w.fits n := (Wanted.fits_akin akin (wellformed.cards _ member) (wellformed.cards n there)).mpr fits
      rw [Forest.follow,step,Option.elim_some] at ended ⊢
      rw [Preferences.walk.eq_def]
      simp only [merged]
      refine bind_ok.mpr ⟨_,found fits',?_⟩
      refine ih there (fun _ => fits') (fun id earlier => ?_) ended
      rcases List.mem_cons.mp earlier with rfl | earlier
      · exact .single step
      · exact (behind id earlier).tail step

theorem findCard (wellformed : Wellformed t s) (member : m ∈ s.memories) (names : w.names t m) (there : n ∈ s.memories)
    (fits : m = n ∨ w.fits n) (leads : Leads (link s) m.id n.id) (unmerged : n.scope.card.mergedInto = none) :
    Preferences.findCard t w s = .ok (some n) := by
  have ends : Ends (link s) m.id n.id := ⟨leads,(link_mem there).trans unmerged⟩
  have first : Preferences.firstCard t w s = .ok (some m) := by
    rcases wellformed.firstCard w with ⟨m',member',names',found⟩ | ⟨absent,_⟩
    · rw [found,wellformed.one_card member member' names names']
    · exact absurd names (absent m member)
  have last : Forest.follow (link s) s.memories.rows.length m.id = n.id := by
    have count : (s.memories.rows.map Memory.id).length = s.memories.rows.length := List.length_map _
    rw [← count]
    refine ends.follow_eq (fun id _ linked => ?_)
    obtain ⟨next,step⟩ := Option.ne_none_iff_exists'.mp linked
    obtain ⟨row,found,_⟩ := Option.bind_eq_some_iff.mp step
    exact List.mem_map.mpr ⟨row,(Table.find?_eq_some.mp found).1,(Table.find?_eq_some.mp found).2⟩
  refine bind_ok.mpr ⟨_,first,?_⟩
  rw [wellformed.walk member ?_ (by simp) (by rw [last]; exact ends.root),last,Table.find?_mem there]
  intro merged
  rcases fits with rfl | fits
  · exact absurd ends.root merged
  · obtain ⟨n',there',same,akin⟩ := wellformed.akin member leads
    obtain rfl := s.memories.unique there' there same
    exact (Wanted.fits_akin akin (wellformed.cards m member) (wellformed.cards _ there)).mp fits

end Wellformed

/-- A request has come to the row, from the one under its key. -/
def Reaches (t : Texts) (s : Store Scope) (w : Wanted) (row : Row) : Prop :=
  ∃ k ∈ s.memories, w.names t k ∧ (k.id = row.id ∨ w.fits row) ∧ Leads (link s) k.id row.id

theorem Reaches.later (reaches : Reaches t s w row) (cards : ∀ m ∈ s.memories, Carded t m) (advances : Advances t s s') :
    Reaches t s' w row := by
  obtain ⟨k,member,names,fits,leads⟩ := reaches
  obtain ⟨k',there,same,kept⟩ := advances.progresses.kept k member
  exact ⟨k',there,names.kept kept (cards k member),same ▸ fits,same ▸ leads.mono (fun _ _ => advances.relinks.mono)⟩

/-- A request at a merged card knows where the card is merged into, and leads there from every
card it has come by. -/
structure Following (t : Texts) (s : Store Scope) (w : Wanted) (seen : List MemoryId) (old : Row) (next : MemoryId) : Prop where
  read : Seen t s old
  carded : Carded t old
  step : link s old.id = some next
  behind : ∀ id ∈ seen, Relation.TransGen (Linked (link s)) id old.id
  reaches : Reaches t s w old

theorem Following.later (following : Following t s w seen old next) (cards : ∀ m ∈ s.memories, Carded t m)
    (advances : Advances t s s') : Following t s' w seen old next where
  read := following.read.later advances.progresses
  carded := following.carded
  step := advances.relinks.mono following.step
  behind id member := Relation.TransGen.mono (fun _ _ => advances.relinks.mono) _ _ (following.behind id member)
  reaches := following.reaches.later cards advances

theorem Following.arrives (following : Following t s w seen old next) (wellformed : Wellformed t s) :
    ∃ n ∈ s.memories, n.id = next ∧ (w.fits n ↔ w.fits old) ∧
      (w.fits n → Preferences.follow w seen old next s = .ok (some n) ∧ Reaches t s w n ∧
        ∀ id ∈ old.id::seen, Relation.TransGen (Linked (link s)) id n.id) := by
  obtain ⟨m,member,n,there,same,rfl,akin,found⟩ := wellformed.follow (w := w) following.step following.behind
  obtain ⟨m',member',same',kept⟩ := following.read
  obtain rfl := s.memories.unique member' member (same'.trans same.symm)
  refine ⟨n,there,rfl,?_,fun fits => ⟨found fits,?_,fun id earlier => ?_⟩⟩
  · rw [Wanted.fits_akin akin (wellformed.cards _ member) (wellformed.cards n there)]
    exact Wanted.fits_kept kept (wellformed.cards _ member) following.carded
  · obtain ⟨k,inside,names,_,leads⟩ := following.reaches
    exact ⟨k,inside,names,.inr fits,leads.tail following.step⟩
  · rcases List.mem_cons.mp earlier with rfl | earlier
    · exact .single following.step
    · exact (following.behind id earlier).tail following.step

end

/-! ### What is in progress -/

/-- The job is for the card it read. -/
def Job.Placed (t : Texts) (s : State) : Job → Prop
  | .message m _ current _ _ => ∀ row ∈ current, Reaches t s.store m.wanted row
  | .forget f current => ∀ row ∈ current, Reaches t s.store f.wanted row
  | .spread f row => ∀ source ∈ f.ids, (s.forgotten.find? (row.spaceId,source)).isSome
  | .tidy .. | .consolidate _ => True

def Flight.Sound (t : Texts) (s : State) : Flight → Prop
  | .searching _ => True
  | .following r seen record next => Following t s.store r.wanted seen record next
  | .found r current => ∀ row ∈ current, Seen t s.store row ∧ row.scope.card.mergedInto = none ∧ Reaches t s.store r.wanted row
  | .gathering c => (Job.consolidate c).Sound t s.store ∧ c.reread = .empty
  | .ready job => job.Sound t s.store ∧ job.Placed t s
  | .recording f _ sources => f.ids = sources.map Source.id
  | .spreading f spaceId => ∀ source ∈ f.ids, (s.forgotten.find? (spaceId,source)).isSome

/-- What a transaction does to the cards, and to the forgotten sources. -/
structure Moves (t : Texts) (s s' : State) : Prop where
  advances : Advances t s.store s'.store
  forgotten : ∀ key, (s.forgotten.find? key).isSome → (s'.forgotten.find? key).isSome

section
variable {s s' : State} {f : Flight} {job : Job}

theorem Moves.refl (t : Texts) (s : State) : Moves t s s := ⟨.of_memories rfl,fun _ there => there⟩

theorem Job.Sound.later (sound : job.Sound t s.store) (moves : Moves t s s') : job.Sound t s'.store :=
  ⟨sound.unmerged,fun row reads => (sound.seen row reads).later moves.advances.progresses⟩

theorem Job.Placed.later (placed : job.Placed t s) (cards : ∀ m ∈ s.store.memories, Carded t m) (moves : Moves t s s') :
    job.Placed t s' := by
  cases job with
  | message m tries current answer relations => exact fun row read => (placed row read).later cards moves.advances
  | forget f current => exact fun row read => (placed row read).later cards moves.advances
  | spread f row => exact fun source member => moves.forgotten _ (placed source member)
  | tidy row relations => trivial
  | consolidate c => trivial

theorem Flight.Sound.later (sound : f.Sound t s) (cards : ∀ m ∈ s.store.memories, Carded t m) (moves : Moves t s s') :
    f.Sound t s' := by
  cases f with
  | searching r => trivial
  | following r seen record next => exact Following.later sound cards moves.advances
  | found r current =>
    intro row read
    obtain ⟨seen,unmerged,reaches⟩ := sound row read
    exact ⟨seen.later moves.advances.progresses,unmerged,reaches.later cards moves.advances⟩
  | gathering c => exact ⟨Job.Sound.later sound.1 moves,sound.2⟩
  | ready job => exact ⟨Job.Sound.later sound.1 moves,Job.Placed.later sound.2 cards moves⟩
  | recording f spaceId sources => exact sound
  | spreading f spaceId => exact fun source member => moves.forgotten _ (sound source member)

/-! ### Transactions -/

theorem record_known {spaceId : SpaceId} {sources : List Source} {forgotten : ForgottenSources} {key : SpaceId × SourceId} :
    (forgotten.find? key).isSome ∨ (∃ source ∈ sources, key = (spaceId,source.id)) →
      ((record spaceId sources forgotten).find? key).isSome := by
  unfold Preferences.record
  induction sources generalizing forgotten with
  | nil =>
    rintro (there | ⟨_,member,_⟩)
    · exact there
    · cases member
  | cons source sources ih =>
    intro known
    rw [List.foldl_cons]
    apply ih
    rw [Table.find?_upsert]
    rcases known with there | ⟨other,member,rfl⟩
    · refine .inl ?_
      split
      · rfl
      · exact there
    · rcases List.mem_cons.mp member with rfl | later
      · exact .inl (by rw [if_pos rfl]; rfl)
      · exact .inr ⟨other,later,rfl⟩

theorem Job.moves {draw : Draw} (sound : job.Sound rt.t s.store) (cards : ∀ m ∈ s.store.memories, Carded rt.t m) :
    Moves rt.t s (job.commit rt draw s).2 := by
  refine ⟨Job.advances sound cards,fun key there => ?_⟩
  have step : job.Committing rt draw s (job.commit rt draw s) := job.committing draw s
  generalize job.commit rt draw s = result at step ⊢
  cases step with
  | failed e => exact there
  | idle nothing => exact there
  | written writes plain => exact there
  | reviewed same ok => exact there

theorem command_moves {c : Command Scope} {store : Store Scope} (plain : plain c) (ok : execute rt.lib s.store c = .ok store)
    (wellformed : Wellformed rt.t s.store) : Moves rt.t s { s with store } := by
  obtain ⟨progresses,apart,found⟩ := command_progresses plain ok wellformed.cards
  refine ⟨⟨progresses,apart,.still (fun id => ?_)⟩,fun _ there => there⟩
  have same := congrArg (fun scope => scope.bind (fun scope => scope.card.mergedInto)) (found id)
  simpa only [link,Option.bind_map,Function.comp_def] using same

theorem record_moves (spaceId : SpaceId) (sources : List Source) :
    Moves t s { s with forgotten := record spaceId sources s.forgotten } :=
  ⟨.of_memories rfl,fun _ there => record_known (.inl there)⟩

/-! ### Steps -/

section
variable {P : Event → Prop} {r : Request} {c : Consolidation}

def Request.Meets (P : Event → Prop) : Request → Prop
  | .message m _ => P (.message m)
  | .forget f => P (.forget f)

def Job.Meets (P : Event → Prop) : Job → Prop
  | .message m _ _ _ _ => P (.message m)
  | .forget f _ => P (.forget f)
  | .spread .. | .tidy .. | .consolidate _ => True

/-- What is in progress was begun by an event that meets the condition. -/
def Flight.Meets (P : Event → Prop) : Flight → Prop
  | .searching r | .following r _ _ _ | .found r _ => r.Meets P
  | .ready job => job.Meets P
  | .gathering _ | .recording .. | .spreading .. => True

structure World.Sound (rt : Runtime) (P : Event → Prop) (w : World) : Prop where
  wellformed : Wellformed rt.t w.state.store
  flights : ∀ f ∈ w.flights, f.Sound rt.t w.state ∧ f.Meets P

variable {w w' : World} {i : Nat} {flights : List Flight}

theorem World.Sound.at (sound : w.Sound rt P) (there : w.flights[i]? = some f) : f.Sound rt.t w.state ∧ f.Meets P :=
  sound.flights f (List.mem_of_getElem? there)

theorem World.Sound.replaced (sound : w.Sound rt P) (moves : Moves rt.t w.state s)
    (fresh : ∀ f ∈ flights, f.Sound rt.t s ∧ f.Meets P) : (w.replaced i flights s).Sound rt P := by
  refine ⟨sound.wellformed.advances moves.advances,fun f member => ?_⟩
  have kept : f ∈ w.flights → f.Sound rt.t s ∧ f.Meets P := fun member =>
    ⟨(sound.flights f member).1.later sound.wellformed.cards moves,(sound.flights f member).2⟩
  simp only [World.replaced,List.mem_append] at member
  rcases member with (before | new) | after
  · exact kept (List.mem_of_mem_take before)
  · exact fresh f new
  · exact kept (List.mem_of_mem_drop after)

theorem World.Sound.joined (sound : w.Sound rt P) (fresh : f.Sound rt.t w.state ∧ f.Meets P) :
    World.Sound rt P { w with flights := w.flights ++ [f] } := by
  refine ⟨sound.wellformed,fun g member => ?_⟩
  rcases List.mem_append.mp member with old | new
  · exact sound.flights g old
  · rw [List.mem_singleton.mp new]
    exact fresh

theorem arrive_sound (wellformed : Wellformed t s.store) {seen : List MemoryId} (member : m ∈ s.store.memories)
    (reaches : Reaches t s.store r.wanted m) (behind : ∀ id ∈ seen, Relation.TransGen (Linked (link s.store)) id m.id)
    (meets : r.Meets P) : (arrive r seen (some m)).Sound t s ∧ (arrive r seen (some m)).Meets P := by
  cases merged : m.scope.card.mergedInto with
  | none =>
    simp only [arrive,merged]
    refine ⟨fun row read => ?_,meets⟩
    obtain rfl := Option.some.inj read
    exact ⟨.of_mem member,merged,reaches⟩
  | some next =>
    simp only [arrive,merged]
    exact ⟨⟨.of_mem member,wellformed.cards m member,(link_mem member).trans merged,behind,reaches⟩,meets⟩

theorem search_sound (wellformed : Wellformed t s.store) {found : Option Row} (ok : firstCard t r.wanted s.store = .ok found)
    (meets : r.Meets P) : (arrive r [] found).Sound t s ∧ (arrive r [] found).Meets P := by
  rcases wellformed.firstCard r.wanted with ⟨m,member,names,read⟩ | ⟨_,read⟩
  · cases ok.symm.trans read
    exact arrive_sound wellformed member ⟨m,member,names,.inl rfl,.refl⟩ (by simp) meets
  · cases ok.symm.trans read
    exact ⟨(fun row read => by cases read),meets⟩

theorem follow_sound (wellformed : Wellformed t s.store) {seen : List MemoryId} {found : Option Row}
    (following : Following t s.store r.wanted seen old next) (ok : follow r.wanted seen old next s.store = .ok found)
    (meets : r.Meets P) : (arrive r (old.id::seen) found).Sound t s ∧ (arrive r (old.id::seen) found).Meets P := by
  obtain ⟨n,there,rfl,_,comes⟩ := following.arrives wellformed
  have fits : r.wanted.fits n := by
    obtain ⟨_,_,rest⟩ := bind_ok.mp ok
    simp only [Table.find?_mem there] at rest
    obtain ⟨_,passed,_⟩ := bind_ok.mp rest
    have fits := require_ok.mp passed
    exact fits
  obtain ⟨read,reaches,behind⟩ := comes fits
  cases ok.symm.trans read
  exact arrive_sound wellformed there reaches behind meets

/-- A review that begins has read the card, and nothing else. -/
theorem gathering_sound (member : row ∈ s.store.memories) (opened : open? row) : (Job.consolidate { root := row }).Sound t s.store := by
  refine ⟨⟨opened,?_,?_,?_,?_⟩,fun m reads => ?_⟩
  · exact fun m inside => absurd inside (Table.not_mem_empty m)
  · exact fun m inside => absurd inside (Table.not_mem_empty m)
  · exact fun m inside => absurd inside (Table.not_mem_empty m)
  · exact fun m inside => absurd inside (Table.not_mem_empty m)
  · rcases reads with rfl | inside | inside
    · exact .of_mem member
    · exact absurd inside (Table.not_mem_empty m)
    · exact absurd inside (Table.not_mem_empty m)

theorem Seen.version (seen : Seen t s.store row) (member : m ∈ s.store.memories) (same : m.id = row.id) :
    row.currentVersion ≤ m.currentVersion := by
  obtain ⟨n,there,same',kept⟩ := seen
  obtain rfl := s.store.memories.unique there member (same'.trans same.symm)
  rcases kept with rfl | kept
  · exact le_rfl
  · exact Nat.le_of_lt kept.later

/-- One card more that the review is read with. -/
theorem retrieve_sound (wellformed : Wellformed t s.store) (sound : (Job.consolidate c).Sound t s.store)
    (member : row ∈ s.store.memories) (chosen : candidate c.root row) (reread : c.reread = .empty) :
    (Job.consolidate { c with records := c.records.upsert row }).Sound t s.store := by
  obtain ⟨⟨opened,records,rooted,near,agree⟩,seen⟩ := sound
  have unmerged : row.scope.card.mergedInto = none := by
    by_contra merged
    have quiet := (wellformed.cards row member).quiet (Option.isSome_iff_ne_none.mpr merged)
    simp [candidate,quiet] at chosen
  refine ⟨⟨opened,fun m inside => ?_,fun m inside same => ?_,near,fun other again => ?_⟩,fun m reads => ?_⟩
  · rcases Table.mem_upsert.mp inside with rfl | ⟨before,_⟩
    · exact ⟨chosen,unmerged⟩
    · exact records m before
  · rcases Table.mem_upsert.mp inside with rfl | ⟨before,_⟩
    · exact (seen c.root (.inl rfl)).version member same
    · exact rooted m before same
  · rw [reread] at again
    exact absurd again (Table.not_mem_empty other)
  · rcases reads with rfl | inside | inside
    · exact seen _ (.inl rfl)
    · rcases Table.mem_upsert.mp inside with rfl | ⟨before,_⟩
      · exact .of_mem member
      · exact seen m (.inr (.inl before))
    · exact seen m (.inr (.inr inside))

/-- One card more that is read for its links. -/
theorem reread_sound {again : Records} (sound : (Job.consolidate c).Sound t s.store) (member : row ∈ s.store.memories)
    (space : row.spaceId = c.root.spaceId) (inserted : c.reread.insert row = some again)
    (steady : row.id ≠ c.root.id → ∀ other ∈ c.records, other.id = row.id → other = row) :
    (Job.consolidate { c with reread := again }).Sound t s.store := by
  obtain ⟨⟨opened,records,rooted,near,agree⟩,seen⟩ := sound
  refine ⟨⟨opened,records,rooted,fun m inside => ?_,fun m inside => ?_⟩,fun m reads => ?_⟩
  · rcases (Table.mem_insert inserted).mp inside with before | rfl
    · exact near m before
    · exact space
  · rcases (Table.mem_insert inserted).mp inside with before | rfl
    · exact agree m before
    · exact steady
  · rcases reads with rfl | inside | inside
    · exact seen _ (.inl rfl)
    · exact seen m (.inr (.inl inside))
    · rcases (Table.mem_insert inserted).mp inside with before | rfl
      · exact seen m (.inr (.inr before))
      · exact .of_mem member

end

end

/-! ### Whole operations -/

section
variable {P : Event → Prop} {s : State} {job : Job} {draw : Draw} {c : Consolidation}

def Transaction.Meets (P : Event → Prop) : Transaction → Prop
  | .operate (.message m _ _) _ => P (.message m)
  | .operate (.forget f) _ => P (.forget f)
  | .command c => P (.command c)
  | .operate .. | .record .. => True

theorem Write.unchanged {w : Write} (seen : Seen t s.store row) (current : w.current = some row) (fresh : ¬w.Outdated rt s.store) :
    s.store.memories.find? row.id = some row := by
  obtain ⟨m,found,_⟩ := seen.known.found
  have unmoved : m.currentVersion = row.currentVersion := by
    by_contra moved
    unfold Outdated at fresh
    rw [current] at fresh
    exact fresh ⟨m,found,moved⟩
  obtain rfl := seen.known.current found unmoved
  exact found

theorem Reaches.findCard (wellformed : Wellformed t s.store) (reaches : Reaches t s.store w row)
    (there : s.store.memories.find? row.id = some row) (unmerged : row.scope.card.mergedInto = none) :
    Preferences.findCard t w s.store = .ok (some row) := by
  obtain ⟨member,_⟩ := Table.find?_eq_some.mp there
  obtain ⟨k,inside,names,fits,leads⟩ := reaches
  exact wellformed.findCard inside names member (fits.imp_left (s.store.memories.unique inside member)) leads unmerged

theorem commit_reread {again : Records} {intact : Bool} {now : Time}
    (same : Consolidation.drafts rt.t rt.dump rt.settings.limit { c with reread := again } now =
      c.drafts rt.t rt.dump rt.settings.limit now) :
    commit rt { c with reread := again } intact now s = commit rt c intact now s := by
  simp only [commit,same]

theorem look_eq {records : Records} {rows : List Row} {p : Row → Bool} (sublist : rows.Sublist records.rows)
    (current : ∀ row ∈ rows, s.store.memories.find? row.id = some row) (chosen : ∀ row ∈ rows, p row) :
    ((.empty : Records).insertNew (((rows.map Memory.id).filterMap s.store.memories.find?).filter p)).rows = rows := by
  have read : (rows.map Memory.id).filterMap s.store.memories.find? = rows := by
    rw [List.filterMap_map]
    clear sublist chosen
    induction rows with
    | nil => rfl
    | cons row rows ih =>
      have here : (s.store.memories.find? ∘ Memory.id) row = some row := current row List.mem_cons_self
      rw [List.filterMap_cons_some here,ih (fun r member => current r (List.mem_cons_of_mem _ member))]
  rw [read,List.filter_eq_self.mpr chosen,Table.rows_insertNew_of_fresh]
  · rfl
  · exact records.keyed.sublist (sublist.map _)
  · exact fun _ _ m inside => absurd inside (Table.not_mem_empty m)

/-- A review that is committed has written what it would have, had it read everything just then. -/
theorem Consolidation.whole {store : Store Scope} (wellformed : Wellformed rt.t s.store)
    (sound : (Job.consolidate c).Sound rt.t s.store) (ok : commit rt c draw.intact draw.now s = .ok store) :
    ∃ op, (Transaction.operate op draw).Meets P ∧ Whole rt s (.operate op draw) { s with store } := by
  obtain ⟨p,drafts,committed⟩ := commit_committed sound wellformed.cards ok
  obtain ⟨formed,seen⟩ := sound
  obtain ⟨q,progress,same⟩ := drafts_ok committed.computed
  have root : s.store.memories.find? c.root.id = some c.root := by
    obtain ⟨member,_⟩ := Table.find?_eq_some.mp committed.drafted.root
    exact committed.current _ member
  have records : ∀ row ∈ c.records, s.store.memories.find? row.id = some row := by
    intro row listed
    by_cases own : row.id = c.root.id
    · obtain ⟨member,_⟩ := Table.find?_eq_some.mp root
      have read := seen row (.inr (.inl listed))
      have found : s.store.memories.find? row.id = some c.root := by
        rw [own]
        exact root
      have same : c.root = row :=
        read.known.current found (Nat.le_antisymm (formed.rooted row listed own) (read.version member own.symm))
      rwa [same] at found
    · obtain ⟨d,member,rfl⟩ := committed.drafted.records row listed own
      exact committed.current d member
  obtain ⟨effective,sublist,redirected,present⟩ : ∃ effective : List Row, effective.Sublist c.reread.rows ∧
      effective.foldl (redirect c.root.scope.card.ownerId (redirects (c.outcome q draw.now))) (c.outcome q draw.now) = drafts ∧
      ∀ row ∈ effective, ∃ d ∈ drafts, d.row = row := by
    rw [same]
    exact redirects_effective c.reread.keyed _
  have reread : ∀ row ∈ effective, s.store.memories.find? row.id = some row := by
    intro row listed
    obtain ⟨d,member,rfl⟩ := present row listed
    exact committed.current d member
  have near : ∀ row ∈ effective, (decide (row.spaceId = c.root.spaceId)) = true :=
    fun row listed => decide_eq_true (formed.near row (sublist.subset listed))
  have chosen : ∀ row ∈ c.records.rows, candidate c.root row = true := fun row listed => (formed.records row listed).1
  have again := look_eq (p := (fun row => decide (row.spaceId = c.root.spaceId))) sublist reread near
  have listed := Table.ext_rows (look_eq (p := candidate c.root) (List.Sublist.refl c.records.rows) records chosen)
  refine ⟨.consolidate c.root.id (c.records.rows.map Memory.id) c.available c.unreadable c.review (effective.map Memory.id),trivial,_,
    bind_ok.mpr ⟨c.root,demand_ok.mpr (Option.filter_eq_some_iff.mpr ⟨root,formed.root⟩),rfl⟩,?_⟩
  have whole : commit rt { c with
      records := (.empty : Records).insertNew (((c.records.rows.map Memory.id).filterMap s.store.memories.find?).filter (candidate c.root))
      reread := (.empty : Records).insertNew (((effective.map Memory.id).filterMap s.store.memories.find?).filter
        (fun row => decide (row.spaceId = c.root.spaceId))) } draw.intact draw.now s = .ok store := by
    rw [listed]
    refine (commit_reread ?_).trans ok
    refine Eq.trans ?_ committed.computed.symm
    refine bind_ok.mpr ⟨q,progress,?_⟩
    rw [again]
    exact congrArg Except.ok redirected
  simp only [Job.commit]
  rw [whole]

theorem Job.write_new {write : Write} {message : Message} {tries : Nat} {answer : CardPlan} {relations : List CardRelation} {now : Time}
    (writes : Job.write rt now (.message message tries none answer relations) = .ok (some write)) :
    write.spaceId = message.note.spaceId ∧ write.key rt = message.wanted.key rt.t := by
  obtain ⟨round,integrated,last⟩ := bind_ok.mp writes
  cases round with
  | writes card action =>
    simp only [pure,Except.pure,Except.ok.injEq,Option.some.injEq] at last
    have follows := (integrate_writes integrated).1.follows
    subst last
    refine ⟨rfl,?_⟩
    simp only [Write.key,Wanted.key,follows.subject,follows.preferenceObject,follows.ownerId]
    rfl
  | discarded => cases last
  | unclear _ => cases last
  | full => cases last
  | present => cases last

theorem Job.whole (wellformed : Wellformed rt.t s.store) (sound : job.Sound rt.t s.store) (placed : job.Placed rt.t s)
    (meets : job.Meets P) : (job.commit rt draw s).2 = s ∨
      ∃ op, (Transaction.operate op draw).Meets P ∧ Whole rt s (.operate op draw) (job.commit rt draw s).2 := by
  have step : job.Committing rt draw s (job.commit rt draw s) := job.committing draw s
  generalize after : job.commit rt draw s = result at step ⊢
  cases step with
  | failed e => exact .inl rfl
  | idle nothing => exact .inl rfl
  | @reviewed c store same ok =>
    subst same
    exact .inr (Consolidation.whole wellformed sound ok)
  | @written write writes plain =>
    by_cases outdated : write.Outdated rt s.store
    · refine .inl ?_
      rw [(Write.outdated outdated).1]
    · refine .inr ?_
      obtain ⟨_,current⟩ := Job.write_fits writes sound.unmerged
      have unchanged : ∀ row, write.current = some row → Seen rt.t s.store row → s.store.memories.find? row.id = some row :=
        fun row read seen => Write.unchanged seen read outdated
      rw [← after]
      cases job with
      | consolidate c => exact absurd rfl (plain c)
      | message m tries read answer relations =>
        refine ⟨.message m answer relations,meets,.message m 0 read answer relations,?_,rfl⟩
        refine bind_ok.mpr ⟨read,?_,rfl⟩
        cases read with
        | some row => exact (placed row rfl).findCard wellformed (unchanged row current (sound.seen row rfl)) (sound.unmerged row rfl)
        | none =>
          rcases wellformed.firstCard m.wanted with ⟨n,member,names,_⟩ | ⟨_,first⟩
          · refine absurd ?_ outdated
            obtain ⟨space,key⟩ := Job.write_new writes
            unfold Write.Outdated
            rw [current]
            exact ⟨n,member,names.1.trans space.symm,names.2.trans (congrArg some key.symm)⟩
          · refine bind_ok.mpr ⟨none,first,?_⟩
            rw [walk]
      | forget f read =>
        cases read with
        | none => cases writes
        | some row =>
          refine ⟨.forget f,meets,.forget f (some row),?_,rfl⟩
          exact bind_ok.mpr ⟨_,(placed row rfl).findCard wellformed (unchanged row current (sound.seen row rfl)) (sound.unmerged row rfl),rfl⟩
      | spread f row =>
        refine ⟨.spread f row.id,trivial,.spread f row,?_,rfl⟩
        refine bind_ok.mpr ⟨row,demand_ok.mpr (unchanged row current (sound.seen row rfl)),?_⟩
        exact bind_ok.mpr ⟨(),require_ok.mpr placed,rfl⟩
      | tidy row relations =>
        refine ⟨.tidy row.id relations,trivial,.tidy row relations,?_,rfl⟩
        refine bind_ok.mpr ⟨row,demand_ok.mpr ?_,rfl⟩
        exact Option.filter_eq_some_iff.mpr ⟨unchanged row current (sound.seen row rfl),sound.unmerged⟩

theorem walk_ok {store : Store Scope} {seen : List MemoryId} {found : Option Row} (wellformed : Wellformed t store)
    (member : old ∈ store.memories) (ok : walk w store turns seen (some old) = .ok found) :
    ∃ n ∈ store.memories, found = some n ∧ n.scope.card.mergedInto = none ∧ Leads (link store) old.id n.id ∧ (old.id = n.id ∨ w.fits n) := by
  induction turns generalizing old seen with
  | zero =>
    rw [walk.eq_def] at ok
    cases merged : old.scope.card.mergedInto with
    | none =>
      simp only [merged] at ok
      cases ok
      exact ⟨old,member,rfl,merged,.refl,.inl rfl⟩
    | some next =>
      simp only [merged] at ok
      cases ok
  | succ turns ih =>
    rw [walk.eq_def] at ok
    cases merged : old.scope.card.mergedInto with
    | none =>
      simp only [merged] at ok
      cases ok
      exact ⟨old,member,rfl,merged,.refl,.inl rfl⟩
    | some next =>
      simp only [merged] at ok
      obtain ⟨read,followed,ok⟩ := bind_ok.mp ok
      obtain ⟨_,_,followed⟩ := bind_ok.mp followed
      have step : link store old.id = some next := (link_mem member).trans merged
      obtain ⟨n,there,rfl,_⟩ := wellformed.linked old member next step
      simp only [Table.find?_mem there] at followed
      obtain ⟨_,passed,last⟩ := bind_ok.mp followed
      cases last
      have fits := require_ok.mp passed
      obtain ⟨x,inside,same,unmerged,leads,rest⟩ := ih there ok
      refine ⟨x,inside,same,unmerged,.head step leads,.inr ?_⟩
      rcases rest with own | fits'
      · rw [← store.memories.unique there inside own]
        exact fits
      · exact fits'

theorem findCard_ok {store : Store Scope} {found : Option Row} (wellformed : Wellformed t store) (ok : findCard t w store = .ok found) :
    ∀ row ∈ found, row ∈ store.memories ∧ row.scope.card.mergedInto = none ∧ Reaches t store w row := by
  intro row read
  obtain ⟨first,looked,ok⟩ := bind_ok.mp ok
  rcases wellformed.firstCard w with ⟨m,member,names,there⟩ | ⟨_,there⟩
  · cases looked.symm.trans there
    obtain ⟨n,inside,same,unmerged,leads,rest⟩ := walk_ok wellformed member ok
    obtain rfl := Option.some.inj (read.symm.trans same)
    exact ⟨inside,unmerged,m,member,names,rest,leads⟩
  · cases looked.symm.trans there
    rw [walk] at ok
    cases ok
    cases read

theorem look_mem {p : Row → Bool} {ids : List MemoryId}
    (member : row ∈ (.empty : Records).insertNew ((ids.filterMap s.store.memories.find?).filter p)) : row ∈ s.store.memories ∧ p row := by
  rcases Table.mem_of_insertNew member with absent | there
  · exact absurd absent (Table.not_mem_empty row)
  · obtain ⟨read,chosen⟩ := List.mem_filter.mp there
    obtain ⟨id,_,found⟩ := List.mem_filterMap.mp read
    exact ⟨(Table.find?_eq_some.mp found).1,chosen⟩

theorem Operation.sound {op : Operation} (wellformed : Wellformed rt.t s.store) (ok : op.read rt s = .ok job)
    (meets : (Transaction.operate op draw).Meets P) : job.Sound rt.t s.store ∧ job.Placed rt.t s ∧ job.Meets P := by
  cases op with
  | message m answer relations =>
    obtain ⟨found,read,last⟩ := bind_ok.mp ok
    cases last
    have reached := findCard_ok wellformed read
    exact ⟨⟨fun row there => (reached row there).2.1,fun row there => .of_mem (reached row there).1⟩,
      fun row there => (reached row there).2.2,meets⟩
  | forget f =>
    obtain ⟨found,read,last⟩ := bind_ok.mp ok
    cases last
    have reached := findCard_ok wellformed read
    exact ⟨⟨fun row there => (reached row there).2.1,fun row there => .of_mem (reached row there).1⟩,
      fun row there => (reached row there).2.2,meets⟩
  | spread f id =>
    obtain ⟨row,read,ok⟩ := bind_ok.mp ok
    obtain ⟨_,recorded,last⟩ := bind_ok.mp ok
    cases last
    have recorded := require_ok.mp recorded
    refine ⟨⟨trivial,fun m same => ?_⟩,recorded,trivial⟩
    obtain rfl := Option.some.inj same
    exact .of_mem (Table.find?_eq_some.mp (demand_ok.mp read)).1
  | tidy id relations =>
    obtain ⟨row,read,last⟩ := bind_ok.mp ok
    cases last
    obtain ⟨found,opened⟩ := Option.filter_eq_some_iff.mp (demand_ok.mp read)
    refine ⟨⟨opened,fun m same => ?_⟩,trivial,trivial⟩
    obtain rfl := Option.some.inj same
    exact .of_mem (Table.find?_eq_some.mp found).1
  | consolidate id records available unreadable review reread =>
    obtain ⟨root,read,last⟩ := bind_ok.mp ok
    cases last
    obtain ⟨found,opened⟩ := Option.filter_eq_some_iff.mp (demand_ok.mp read)
    obtain ⟨member,_⟩ := Table.find?_eq_some.mp found
    refine ⟨⟨⟨opened,fun row there => ?_,fun row there same => ?_,fun row there => ?_,fun row there _ other listed same => ?_⟩,
      fun row reads => ?_⟩,trivial,trivial⟩
    · obtain ⟨inside,chosen⟩ := look_mem there
      refine ⟨chosen,?_⟩
      by_contra merged
      have quiet := (wellformed.cards row inside).quiet (Option.isSome_iff_ne_none.mpr merged)
      simp [candidate,quiet] at chosen
    · obtain ⟨inside,_⟩ := look_mem there
      rw [s.store.memories.unique inside member same]
    · exact of_decide_eq_true (look_mem there).2
    · exact s.store.memories.unique (look_mem listed).1 (look_mem there).1 same
    · rcases reads with rfl | there | there
      · exact .of_mem member
      · exact .of_mem (look_mem there).1
      · exact .of_mem (look_mem there).1

theorem Whole.moves {transaction : Transaction} {s' : State} (whole : Whole rt s transaction s') (wellformed : Wellformed rt.t s.store) :
    Moves rt.t s s' := by
  cases transaction with
  | operate op draw =>
    obtain ⟨job,read,rfl⟩ := whole
    have meets : (Transaction.operate op draw).Meets (fun _ => True) := by cases op <;> trivial
    exact Job.moves (Operation.sound wellformed read meets).1 wellformed.cards
  | record spaceId sources =>
    subst whole
    exact record_moves spaceId sources
  | command c =>
    obtain ⟨plain,store,ok,rfl⟩ := whole
    exact command_moves plain ok wellformed

end

/-! ### Runs -/

section
variable {P : Event → Prop} {w w' : World} {e : Event}

theorem next_sound {job : Job} {s s' : State} {result : Except Error Bool} (sound : job.Placed t s) (meets : job.Meets P)
    (kept : ∀ key, (s.forgotten.find? key).isSome → (s'.forgotten.find? key).isSome) :
    ∀ f ∈ job.next t result, f.Sound t s' ∧ f.Meets P := by
  intro f member
  cases job with
  | message m tries current answer relations =>
    simp only [Job.next] at member
    split at member
    · rw [List.mem_singleton.mp member]
      exact ⟨trivial,meets⟩
    · cases member
  | forget g current =>
    cases current with
    | none => cases member
    | some row =>
      simp only [Job.next] at member
      split at member
      · rw [List.mem_singleton.mp member]
        exact ⟨rfl,trivial⟩
      · cases member
  | spread g row =>
    simp only [Job.next] at member
    split at member
    · rw [List.mem_singleton.mp member]
      exact ⟨fun source cited => kept _ (sound source cited),trivial⟩
    · cases member
  | tidy row relations => cases member
  | consolidate c => cases member

theorem World.Sound.stepped (sound : w.Sound rt P) (steady : Steady w e) (meets : P e) (step : w.next rt e = some w') :
    w'.Sound rt P := by
  have wellformed := sound.wellformed
  have still := Moves.refl rt.t w.state
  cases e with
  | message m =>
    simp only [World.next] at step
    split at step
    · cases step
    · cases step
      exact sound.joined ⟨trivial,meets⟩
  | forget f =>
    cases step
    exact sound.joined ⟨trivial,meets⟩
  | search i =>
    simp only [World.next] at step
    split at step
    · rename_i r there
      split at step
      · rename_i row read
        cases step
        refine sound.replaced still (fun f member => ?_)
        rw [List.mem_singleton.mp member]
        exact search_sound wellformed read (sound.at there).2
      · cases step
        exact sound.replaced still (by simp)
    · cases step
  | follow i =>
    simp only [World.next] at step
    split at step
    · rename_i r seen record next there
      split at step
      · rename_i row read
        cases step
        refine sound.replaced still (fun f member => ?_)
        rw [List.mem_singleton.mp member]
        exact follow_sound wellformed (sound.at there).1 read (sound.at there).2
      · cases step
        exact sound.replaced still (by simp)
    · cases step
  | decide i answer relations =>
    simp only [World.next] at step
    split at step
    · rename_i m tries current there
      cases step
      refine sound.replaced still (fun f member => ?_)
      rw [List.mem_singleton.mp member]
      obtain ⟨found,meets⟩ := sound.at there
      exact ⟨⟨⟨fun row read => (found row read).2.1,fun row read => (found row read).1⟩,fun row read => (found row read).2.2⟩,meets⟩
    · rename_i g current there
      cases step
      refine sound.replaced still (fun f member => ?_)
      rw [List.mem_singleton.mp member]
      obtain ⟨found,meets⟩ := sound.at there
      exact ⟨⟨⟨fun row read => (found row read).2.1,fun row read => (found row read).1⟩,fun row read => (found row read).2.2⟩,meets⟩
    · cases step
  | tidy id relations =>
    obtain ⟨row,read,rfl⟩ := Option.map_eq_some_iff.mp step
    obtain ⟨found,opened⟩ := Option.filter_eq_some_iff.mp read
    obtain ⟨member,rfl⟩ := Table.find?_eq_some.mp found
    refine sound.joined ⟨⟨⟨opened,fun m same => ?_⟩,trivial⟩,trivial⟩
    obtain rfl := Option.some.inj same
    exact .of_mem member
  | consolidate id =>
    obtain ⟨row,read,rfl⟩ := Option.map_eq_some_iff.mp step
    obtain ⟨found,opened⟩ := Option.filter_eq_some_iff.mp read
    obtain ⟨member,rfl⟩ := Table.find?_eq_some.mp found
    exact sound.joined ⟨⟨gathering_sound member opened,rfl⟩,trivial⟩
  | retrieve i id =>
    simp only [World.next] at step
    split at step
    · rename_i c row there found
      split at step
      · rename_i chosen
        cases step
        refine sound.replaced still (fun f member => ?_)
        rw [List.mem_singleton.mp member]
        obtain ⟨⟨held,fresh⟩,_⟩ := sound.at there
        exact ⟨⟨retrieve_sound wellformed held (Table.find?_eq_some.mp found).1 chosen fresh,fresh⟩,trivial⟩
      · cases step
    · cases step
  | review i available unreadable review =>
    simp only [World.next] at step
    split at step
    · rename_i c there
      cases step
      refine sound.replaced still (fun f member => ?_)
      rw [List.mem_singleton.mp member]
      obtain ⟨⟨⟨⟨opened,records,rooted,near,agree⟩,seen⟩,_⟩,_⟩ := sound.at there
      exact ⟨⟨⟨⟨opened,records,rooted,near,agree⟩,seen⟩,trivial⟩,trivial⟩
    · cases step
  | reread i id =>
    simp only [World.next] at step
    split at step
    · rename_i c row there found
      split at step
      · rename_i near
        obtain ⟨again,inserted,rfl⟩ := Option.map_eq_some_iff.mp step
        refine sound.replaced still (fun f member => ?_)
        rw [List.mem_singleton.mp member]
        obtain ⟨member,rfl⟩ := Table.find?_eq_some.mp found
        refine ⟨⟨reread_sound (sound.at there).1.1 member near.1 inserted (fun other m listed same => ?_),trivial⟩,trivial⟩
        have same := steady c there other m listed same
        exact Option.some.inj (same.symm.trans found)
      · cases step
    · cases step
  | commit i draw =>
    simp only [World.next] at step
    split at step
    · rename_i job there
      cases step
      obtain ⟨⟨held,placed⟩,meets⟩ := sound.at there
      have moves : Moves rt.t w.state (job.commit rt draw w.state).2 := Job.moves held wellformed.cards
      exact sound.replaced moves (next_sound placed meets moves.forgotten)
    · cases step
  | record i =>
    simp only [World.next] at step
    split at step
    · rename_i f spaceId sources there
      cases step
      refine sound.replaced (record_moves spaceId sources) (fun g member => ?_)
      rw [List.mem_singleton.mp member]
      refine ⟨fun source cited => ?_,trivial⟩
      have ids : f.ids = sources.map Source.id := (sound.at there).1
      rw [ids] at cited
      obtain ⟨other,listed,rfl⟩ := List.mem_map.mp cited
      exact record_known (.inr ⟨other,listed,rfl⟩)
    · cases step
  | spread i id =>
    simp only [World.next] at step
    split at step
    · rename_i f spaceId row there found
      split at step
      · rename_i spreads
        cases step
        refine sound.replaced still (fun g member => ?_)
        rw [List.mem_singleton.mp member]
        refine ⟨⟨⟨trivial,fun m same => ?_⟩,fun source cited => ?_⟩,trivial⟩
        · obtain rfl := Option.some.inj same
          exact .of_mem (Table.find?_eq_some.mp found).1
        · rw [spreads.1]
          exact (sound.at there).1 source cited
      · cases step
    · cases step
  | command c =>
    simp only [World.next] at step
    split at step
    · rename_i plain
      obtain ⟨store,ok,rfl⟩ := Option.map_eq_some_iff.mp step
      have ok : execute rt.lib w.state.store c = .ok store := by
        cases done : execute rt.lib w.state.store c with
        | error e =>
          rw [done] at ok
          cases ok
        | ok u =>
          rw [done] at ok
          cases ok
          rfl
      have moves := command_moves plain ok wellformed
      exact ⟨wellformed.advances moves.advances,fun f member =>
        ⟨(sound.flights f member).1.later wellformed.cards moves,(sound.flights f member).2⟩⟩
    · cases step
  | drop i =>
    simp only [World.next] at step
    split at step
    · cases step
      exact sound.replaced still (by simp)
    · cases step

theorem World.Sound.single (sound : w.Sound rt P) (meets : P e) (step : w.next rt e = some w') :
    w'.state = w.state ∨ ∃ transaction : Transaction, transaction.Meets P ∧ Whole rt w.state transaction w'.state := by
  cases e with
  | commit i draw =>
    simp only [World.next] at step
    split at step
    · rename_i job there
      cases step
      obtain ⟨⟨held,placed⟩,meets⟩ := sound.at there
      exact (Job.whole sound.wellformed held placed meets).imp_right (fun ⟨op,meets,whole⟩ => ⟨.operate op draw,meets,whole⟩)
    · cases step
  | record i =>
    simp only [World.next] at step
    split at step
    · rename_i f spaceId sources there
      cases step
      exact .inr ⟨.record spaceId sources,trivial,rfl⟩
    · cases step
  | command c =>
    simp only [World.next] at step
    split at step
    · rename_i plain
      obtain ⟨store,ok,rfl⟩ := Option.map_eq_some_iff.mp step
      refine .inr ⟨.command c,meets,plain,store,?_,rfl⟩
      cases done : execute rt.lib w.state.store c with
      | error e =>
        rw [done] at ok
        cases ok
      | ok u =>
        rw [done] at ok
        cases ok
        rfl
    · cases step
  | message m =>
    simp only [World.next] at step
    split at step
    · cases step
    · cases step
      exact .inl rfl
  | forget f =>
    cases step
    exact .inl rfl
  | tidy id relations =>
    obtain ⟨row,_,rfl⟩ := Option.map_eq_some_iff.mp step
    exact .inl rfl
  | consolidate id =>
    obtain ⟨row,_,rfl⟩ := Option.map_eq_some_iff.mp step
    exact .inl rfl
  | reread i id =>
    simp only [World.next] at step
    split at step
    · split at step
      · obtain ⟨again,_,rfl⟩ := Option.map_eq_some_iff.mp step
        exact .inl rfl
      · cases step
    · cases step
  | search i | follow i | decide i answer relations | retrieve i id | review i available unreadable review | spread i id | drop i =>
    refine .inl ?_
    simp only [World.next] at step
    repeat (split at step)
    all_goals
      cases step
      try rfl

variable {es : List Event}

theorem World.Sound.idle (idle : w.flights = []) (wellformed : Wellformed rt.t w.state.store) : w.Sound rt P := by
  refine ⟨wellformed,fun f member => ?_⟩
  rw [idle] at member
  cases member

theorem World.Sound.run (sound : w.Sound rt P) (run : Run (Guarded (fun _ e => P e) (Guarded Steady (World.Step rt))) w es w') :
    w'.Sound rt P :=
  run.invariant (fun w => w.Sound rt P) (fun _ _ _ sound step => sound.stepped step.2.1 step.1 step.2.2) sound

theorem World.Sound.whole (sound : w.Sound rt P) (run : Run (Guarded (fun _ e => P e) (Guarded Steady (World.Step rt))) w es w') :
    ∃ ts, Run (Guarded (fun _ transaction => Transaction.Meets P transaction) (Whole rt)) w.state ts w'.state :=
  Optimistic.matched World.state (fun w => w.Sound rt P) (fun _ _ _ sound step => sound.stepped step.2.1 step.1 step.2.2)
    (fun _ _ _ sound step => sound.single step.1 step.2.2) run sound

/-! ### A day -/

theorem Wellformed.empty (t : Texts) : Wellformed t (.empty Scope) where
  cards m member := absurd member (Table.not_mem_empty m)
  apart m member := absurd member (Table.not_mem_empty m)
  linked m member := absurd member (Table.not_mem_empty m)
  ended id := ⟨id,.refl,rfl⟩

theorem World.after_run {w : World} {es : List Event} (passes : (es.foldlM (World.next .plain) w).isSome)
    (steady : ∀ e ∈ es, ∀ w, Steady w e) : Run (Guarded Steady (World.Step .plain)) w es (w.after es) := by
  have run : Run (World.Step .plain) w es (w.after es) := .of_isSome passes
  exact (run.listed steady).imp (fun w _ _ step => ⟨step.1 w,step.2⟩)

def saying (id : NoteId) (object : String) (attitude : Attitude) (text : String) : Message where
  note := { id,spaceId := 1,text }
  detail := { preferenceObject := object,attitude,description := text,evidenceSpan := text }

def likesCoffee : Message := saying 1 "coffee" .positive "我喜欢coffee"
def dislikesCoffee : Message := saying 2 "咖啡" .negative "现在不喜欢咖啡"
def likesLatte : Message := saying 3 "拿铁" .positive "我喜欢拿铁"
def weekendCoffee : Message := saying 4 "咖啡" .positive "周末喜欢咖啡"

/-- Two messages about one card are read before either is written, so that the second is
tried again; and there is another card. -/
def morning : List Event := [
  .message likesCoffee,.message dislikesCoffee,.search 0,.search 1,.decide 0 {} [],.decide 1 {} [],.commit 0 ⟨10,true,100⟩,
  .commit 0 ⟨11,true,101⟩,.search 0,.decide 0 { action := .update,detailId := some (likesCoffee.entry false).id } [],
  .commit 0 ⟨11,true,102⟩,
  .message likesLatte,.search 0,.decide 0 {} [],.commit 0 ⟨12,true,200⟩]

def noon : World := World.empty.after morning

def Message.evidence (m : Message) : Evidence where
  source := m.source
  noteText := m.note.text
  readRevision := m.note.text

def bothRead : Available := [dislikesCoffee.evidence,likesLatte.evidence].foldl Table.upsert .empty

def dislikeSupported : Assessment where
  detailId := (dislikesCoffee.entry false).id
  verdict := .supported
  sourceIds := [dislikesCoffee.source.id]
  quote := "不喜欢咖啡"
  reason := "直接表达"
  cited := List.cons_ne_nil _ _

def intoLatte : Preferences.Review where
  relations := [⟨12,.equivalent,"同一种饮品"⟩]
  assessments := [dislikeSupported]
  actions := [{
    action := .mergeCards,cardId := 10,targetCardId := some 12
    sourceIds := [dislikesCoffee.source.id,likesLatte.source.id],reason := "同义",cited := List.cons_ne_nil _ _ }]

def forgetCoffee : Forgetting where
  note := { id := 5,spaceId := 1,text := "忘记所有咖啡" }
  detail := { preferenceObject := "咖啡",attitude := .unknown,description := "咖啡",evidenceSpan := "咖啡" }
  allScope := true

/-- The first card is merged into the other while a message has read it, all of both is
forgotten, and one more message has come to the merged card. -/
def evening : List Event := [
  .consolidate 10,.message weekendCoffee,.search 1,.decide 1 {} [],.retrieve 0 12,.review 0 bothRead [] intoLatte,
  .commit 0 ⟨13,true,300⟩,.commit 0 ⟨13,true,301⟩,.search 0,.follow 0,.decide 0 {} [],.commit 0 ⟨13,true,302⟩,
  .forget forgetCoffee,.search 0,.follow 0,.decide 0 {} [],.commit 0 ⟨14,true,400⟩,.record 0,.spread 0 10,.commit 0 ⟨14,true,401⟩,
  .drop 0,.message (saying 6 "咖啡" .negative "晚上不喝咖啡"),.search 0]

def night : World := noon.after evening

theorem day_passes : (morning.foldlM (World.next .plain) .empty).isSome ∧ noon.flights.length = 0 ∧
    (evening.foldlM (World.next .plain) noon).isSome := by decide +kernel

theorem morning_run : Run (Guarded Steady (World.Step .plain)) .empty morning noon :=
  World.after_run day_passes.1 (by simp [morning,Steady])

theorem evening_run : Run (Guarded Steady (World.Step .plain)) noon evening night :=
  World.after_run day_passes.2.2 (by simp [evening,Steady])

theorem morning_sound : noon.Sound .plain (fun _ => True) :=
  World.Sound.run (.idle rfl (.empty _)) (morning_run.listed (fun _ _ => trivial))

theorem morning_idle : noon.flights = [] := List.length_eq_zero_iff.mp day_passes.2.1

/-! ### What holds of every run -/

/-- What the request reads next is there, is read without fail, and is of the account. -/
def Flight.Answered (t : Texts) (s : Store Scope) : Flight → Prop
  | .searching r => ∃ row, firstCard t r.wanted s = .ok row
  | .following r seen old next => r.wanted.fits old → ∃ row, follow r.wanted seen old next s = .ok (some row) ∧ r.wanted.fits row
  | _ => True

/-- In any order of steps a merged card leads to one card of its space, subject and owner that
is not merged; and no request to find a card meets two under one key, a loop, or a link that
leads nowhere or, from a card of its subject and owner, out of the account. -/
theorem lookups_answered (run : Run (Guarded Steady (World.Step rt)) w es w') (idle : w.flights = [])
    (wellformed : Wellformed rt.t w.state.store) :
    (∀ m ∈ w'.state.store.memories, ∃ n ∈ w'.state.store.memories, Ends (link w'.state.store) m.id n.id ∧ Akin m n) ∧
      ∀ f ∈ w'.flights, f.Answered rt.t w'.state.store := by
  have sound : w'.Sound rt (fun _ => True) := World.Sound.run (.idle idle wellformed) (run.listed (fun _ _ => trivial))
  refine ⟨fun m member => ?_,fun f member => ?_⟩
  · obtain ⟨id,ends⟩ := sound.wellformed.ended m.id
    obtain ⟨n,there,rfl,akin⟩ := sound.wellformed.akin member ends.leads
    exact ⟨n,there,ends,akin⟩
  · obtain ⟨held,_⟩ := sound.flights f member
    cases f with
    | searching r =>
      rcases sound.wellformed.firstCard r.wanted with ⟨n,_,_,read⟩ | ⟨_,read⟩
      · exact ⟨_,read⟩
      · exact ⟨_,read⟩
    | following r seen old next =>
      intro fits
      obtain ⟨n,_,_,same,comes⟩ := Following.arrives held sound.wellformed
      exact ⟨n,(comes (same.mpr fits)).1,same.mpr fits⟩
    | found r current => trivial
    | gathering c => trivial
    | ready job => trivial
    | recording f spaceId sources => trivial
    | spreading f spaceId => trivial

theorem lookups_answered_evening :
    (∀ m ∈ night.state.store.memories, ∃ n ∈ night.state.store.memories, Ends (link night.state.store) m.id n.id ∧ Akin m n) ∧
      ∀ f ∈ night.flights, f.Answered Runtime.plain.t night.state.store :=
  lookups_answered evening_run morning_idle morning_sound.wellformed

end

end Suixinji.Preferences
