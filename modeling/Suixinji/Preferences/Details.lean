import Suixinji.Preferences.Linearized

/-! The details of preference cards over whole runs: what becomes of a detail, where it is
kept, and what a card that is merged leaves behind. -/
namespace Suixinji.Preferences
open Relational Checked Memories Transition Forest

variable {rt : Runtime} {t : Texts} {card card' card'' : Card} {d d' d'' : Detail} {gone wider : SourceId → Prop}
  {extra more : SourceId × DetailInput → Prop} {ids : List DetailId}

/-! ### What becomes of a detail -/

def DetailStatus.Closed (status : DetailStatus) : Prop := status ≠ .active ∧ status ≠ .pendingReview

def DetailStatus.Forward (a b : DetailStatus) : Prop := a.Closed → b = a ∨ b = .forgotten

theorem DetailStatus.Forward.refl (a : DetailStatus) : a.Forward a := fun _ => .inl rfl

theorem DetailStatus.Forward.trans {a b c : DetailStatus} (first : a.Forward b) (second : b.Forward c) : a.Forward c := by
  intro closed
  rcases first closed with rfl | rfl
  · exact second closed
  · rcases second (by constructor <;> simp) with same | same
    · exact .inr same
    · exact .inr same

theorem DetailStatus.Forward.closed {a b : DetailStatus} (forward : a.Forward b) (closed : a.Closed) : b.Closed := by
  rcases forward closed with rfl | rfl
  · exact closed
  · constructor <;> simp

/-- A later form of a detail: it says the same under the same condition, it cites what it cited
unless that is gone, and it is not opened again once it is closed. -/
structure Detail.Forward (gone : SourceId → Prop) (d d' : Detail) : Prop where
  id : d'.id = d.id
  attitude : d'.attitude = d.attitude
  condition : d'.condition = d.condition
  status : d.status.Forward d'.status
  cited : ∀ source ∈ d.sources, gone source.id ∨ ∃ other ∈ d'.sources, other.id = source.id

namespace Detail.Forward

theorem refl (gone : SourceId → Prop) (d : Detail) : d.Forward gone d :=
  ⟨rfl,rfl,rfl,.refl _,fun source member => .inr ⟨source,member,rfl⟩⟩

theorem trans (first : d.Forward gone d') (second : d'.Forward gone d'') : d.Forward gone d'' where
  id := second.id.trans first.id
  attitude := second.attitude.trans first.attitude
  condition := second.condition.trans first.condition
  status := first.status.trans second.status
  cited source member := by
    rcases first.cited source member with lost | ⟨other,there,same⟩
    · exact .inl lost
    · rcases second.cited other there with lost | ⟨last,inside,same'⟩
      · exact .inl (same ▸ lost)
      · exact .inr ⟨last,inside,same'.trans same⟩

theorem mono (forward : d.Forward gone d') (weaker : ∀ id, gone id → wider id) : d.Forward wider d' :=
  ⟨forward.id,forward.attitude,forward.condition,forward.status,fun source member =>
    (forward.cited source member).imp_left (weaker _)⟩

theorem of_status (same : d'.id = d.id ∧ d'.attitude = d.attitude ∧ d'.condition = d.condition ∧ d'.sources = d.sources)
    (status : d.status.Forward d'.status) : d.Forward gone d' := by
  obtain ⟨id,attitude,condition,sources⟩ := same
  exact ⟨id,attitude,condition,status,fun source member => .inr ⟨source,by rw [sources]; exact member,rfl⟩⟩

end Detail.Forward

theorem reviewable_forward {status : DetailStatus} (reviewable : d.reviewable) : d.status.Forward status := by
  intro closed
  simp only [Detail.reviewable,Bool.and_eq_true,Bool.or_eq_true,decide_eq_true_eq] at reviewable
  rcases reviewable.1 with active | pending
  · exact absurd active closed.1
  · exact absurd pending closed.2

theorem active_forward {status : DetailStatus} (active : d.status = .active) : d.status.Forward status :=
  fun closed => absurd active closed.1

theorem forgotten_forward {status : DetailStatus} : status.Forward .forgotten := fun _ => .inr rfl

/-! ### What becomes of a card -/

/-- The message a detail goes back to. -/
def DetailId.origin : DetailId → SourceId × DetailInput
  | .entry source detail => (source,detail)
  | .review old _ => old.origin

/-- Every detail has an id of its own, and what a review has replaced is closed. -/
structure Card.Settled (card : Card) : Prop where
  distinct : card.Distinct
  replaced : ∀ d ∈ card.details, ∀ old action, d.id = .review old action → ∃ e ∈ card.details, e.id = old ∧ e.status.Closed

/-- A later form of a card: every detail is there in a later form, and the others go back to
the same messages or are extra. -/
structure Card.Evolves (gone : SourceId → Prop) (extra : SourceId × DetailInput → Prop) (card card' : Card) : Prop where
  kept : ∀ d ∈ card.details, ∃ d' ∈ card'.details, d.Forward gone d'
  origin : ∀ d' ∈ card'.details, (∃ d ∈ card.details, d.id.origin = d'.id.origin) ∨ extra d'.id.origin
  settled : card'.Settled

namespace Card.Evolves

theorem refl (settled : card.Settled) : card.Evolves gone extra card where
  kept d member := ⟨d,member,.refl gone d⟩
  origin d member := .inl ⟨d,member,rfl⟩
  settled := settled

theorem trans (first : card.Evolves gone extra card') (second : card'.Evolves gone extra card'') : card.Evolves gone extra card'' where
  kept d member := by
    obtain ⟨d',there,forward⟩ := first.kept d member
    obtain ⟨d'',last,forward'⟩ := second.kept d' there
    exact ⟨d'',last,forward.trans forward'⟩
  origin d'' last := by
    rcases second.origin d'' last with ⟨d',there,same⟩ | new
    · rcases first.origin d' there with ⟨d,member,same'⟩ | new
      · exact .inl ⟨d,member,same'.trans same⟩
      · exact .inr (same ▸ new)
    · exact .inr new
  settled := second.settled

theorem mono (evolves : card.Evolves gone extra card') (weaker : ∀ id, gone id → wider id) (wide : ∀ origin, extra origin → more origin) :
    card.Evolves wider more card' where
  kept d member := by
    obtain ⟨d',there,forward⟩ := evolves.kept d member
    exact ⟨d',there,forward.mono weaker⟩
  origin d' there := (evolves.origin d' there).imp_right (wide _)
  settled := evolves.settled

theorem of_details (evolves : card.Evolves gone extra card') (same : card''.details = card'.details) : card.Evolves gone extra card'' where
  kept := by
    rw [same]
    exact evolves.kept
  origin := by
    rw [same]
    exact evolves.origin
  settled := by
    obtain ⟨distinct,replaced⟩ := evolves.settled
    refine ⟨?_,by rw [same]; exact replaced⟩
    rw [Card.Distinct,same]
    exact distinct

theorem of_map (settled : card.Settled) {f : Detail → Detail} (same : card'.details = card.details.map f)
    (forward : ∀ d ∈ card.details, d.Forward gone (f d)) : card.Evolves gone extra card' where
  kept d member := ⟨f d,by rw [same]; exact List.mem_map_of_mem member,forward d member⟩
  origin d' there := by
    rw [same] at there
    obtain ⟨d,member,rfl⟩ := List.mem_map.mp there
    exact .inl ⟨d,member,by rw [(forward d member).id]⟩
  settled := by
    refine ⟨?_,fun d' there old action review => ?_⟩
    · have ids : card'.details.map Detail.id = card.details.map Detail.id := by
        rw [same,List.map_map]
        exact List.map_congr_left (fun d member => (forward d member).id)
      rw [Card.Distinct,ids]
      exact settled.distinct
    · rw [same] at there ⊢
      obtain ⟨d,member,rfl⟩ := List.mem_map.mp there
      obtain ⟨e,inside,named,closed⟩ := settled.replaced d member old action ((forward d member).id ▸ review)
      exact ⟨f e,List.mem_map_of_mem inside,(forward e inside).id.trans named,(forward e inside).status.closed closed⟩

end Card.Evolves

/-! ### Messages and requests -/

section
variable {m : Message} {settings : Settings} {p : Detail → Bool} {f : Detail → Detail}

theorem Card.Settled.amend (settled : card.Settled) (once : ids.Nodup)
    (forward : ∀ d ∈ card.details, p d → d.id ∈ ids → d.Forward gone (f d)) (kept : ∀ d, (f d).id = d.id) :
    card.Evolves gone extra (card.amend p f ids) := by
  refine .of_map settled (amend_eq_map settled.distinct once kept) (fun d member => ?_)
  split
  · rename_i chosen
    simp only [Bool.and_eq_true,decide_eq_true_eq] at chosen
    exact forward d member chosen.1 chosen.2
  · exact .refl gone d

theorem Card.Settled.amendFirst (settled : card.Settled) (single : ∀ d e, p d → p e → d.id = e.id)
    (forward : ∀ d ∈ card.details, p d → d.Forward gone (f d)) :
    card.Evolves gone extra { card with details := Preferences.amendFirst p f card.details } := by
  have alone : card.details.Pairwise (fun d e => ¬(p d ∧ p e)) := by
    have distinct := settled.distinct
    rw [Card.Distinct,List.Nodup,List.pairwise_map] at distinct
    exact distinct.imp (fun apart both => apart (single _ _ both.1 both.2))
  refine .of_map settled (amendFirst_eq_map alone) (fun d member => ?_)
  split
  · rename_i chosen
    exact forward d member chosen
  · exact .refl gone d

theorem supported_forward (source : Source) : d.Forward gone (d.supported source) :=
  ⟨rfl,rfl,rfl,.refl _,fun other member => .inr ⟨other,List.mem_append_left _ member,rfl⟩⟩

theorem closed_forward {status : DetailStatus} (forward : d.status.Forward status) : d.Forward gone (d.closed status) :=
  .of_status ⟨rfl,rfl,rfl,rfl⟩ forward

theorem Card.Settled.append {entry : Detail} (settled : card.Settled) (fresh : ∀ d ∈ card.details, d.id ≠ entry.id)
    (replaced : ∀ old action, entry.id = .review old action → ∃ e ∈ card.details, e.id = old ∧ e.status.Closed)
    (same : card'.details = card.details ++ [entry]) : card'.Settled := by
  refine ⟨?_,fun d there old action review => ?_⟩
  · rw [Card.Distinct,same,List.map_append,List.nodup_append]
    refine ⟨settled.distinct,List.nodup_singleton _,fun a member b single => ?_⟩
    obtain ⟨d,inside,rfl⟩ := List.mem_map.mp member
    rw [List.map_singleton,List.mem_singleton] at single
    rw [single]
    exact fresh d inside
  · rw [same] at there ⊢
    have before : ∃ e ∈ card.details, e.id = old ∧ e.status.Closed := by
      rcases List.mem_append.mp there with inside | new
      · exact settled.replaced d inside old action review
      · rw [List.mem_singleton.mp new] at review
        exact replaced old action review
    obtain ⟨e,inside,rest⟩ := before
    exact ⟨e,List.mem_append_left _ inside,rest⟩

theorem Card.Settled.added (settled : card.Settled) (historical : Bool) (message : extra (m.source.id,m.detail)) :
    card.Evolves gone extra (card.added (m.entry historical)) := by
  unfold Card.added
  split
  · exact .refl settled
  · rename_i absent
    refine ⟨fun d member => ⟨d,List.mem_append_left _ member,.refl gone d⟩,fun d there => ?_,?_⟩
    · rcases List.mem_append.mp there with inside | new
      · exact .inl ⟨d,inside,rfl⟩
      · rw [List.mem_singleton.mp new]
        exact .inr message
    · refine settled.append (fun d member same => absent ?_) (fun old action review => ?_) rfl
      · exact List.any_eq_true.mpr ⟨d,member,decide_eq_true same⟩
      · cases review

theorem Message.Writes.evolves (writes : m.Writes settings card card') (settled : card.Settled) (message : extra (m.source.id,m.detail)) :
    card.Evolves gone extra card' := by
  cases writes with
  | @supported named old relations active single found same =>
    have first : card.Evolves gone extra { card with details := Preferences.amendFirst named (·.supported m.source) card.details } :=
      settled.amendFirst single (fun d _ _ => supported_forward _)
    exact first.of_details rfl
  | @updated historical named old relations active single found =>
    have outdated : card.Evolves gone extra { card with details := Preferences.amendFirst named (·.closed .history) card.details } :=
      settled.amendFirst single (fun d _ named => closed_forward (active_forward (active d named)))
    exact (outdated.trans (outdated.settled.added historical message)).of_details rfl
  | appended historical relations room => exact (settled.added historical message).of_details rfl

theorem opening_evolves {row : Row} (settled : row.scope.card.Settled) : row.scope.card.Evolves gone extra (m.opening (some row)) := by
  unfold Message.opening
  simp only
  split
  · exact .of_map settled rfl (fun d _ => closed_forward forgotten_forward)
  · exact .refl settled

theorem forget_evolves (settled : card.Settled) (chosen : List Detail) : card.Evolves gone extra (card.forget t chosen).1 := by
  refine .of_map settled rfl (fun d _ => ?_)
  split
  · exact closed_forward forgotten_forward
  · exact .refl gone d

theorem without_forward {ids : List SourceId} (lost : ∀ id ∈ ids, gone id) : d.Forward gone (d.without ids) := by
  unfold Detail.without
  split
  · refine ⟨rfl,rfl,rfl,.refl _,fun source member => ?_⟩
    by_cases named : source.id ∈ ids
    · exact .inl (lost _ named)
    · exact .inr ⟨source,List.mem_filter.mpr ⟨member,decide_eq_true named⟩,rfl⟩
  · exact closed_forward forgotten_forward

theorem without_id (ids : List SourceId) (d : Detail) : (d.without ids).id = d.id := by
  unfold Detail.without
  split
  · rfl
  · rfl

theorem spread_details {g : Spreading} (spreads : g.spread card = some card') :
    card'.details = card.details.map (fun d => if d.sources.any (·.id ∈ g.ids) then d.without g.ids else d) := by
  simp only [Spreading.spread] at spreads
  split at spreads
  · cases spreads
    rfl
  · cases spreads

theorem spread_evolves {g : Spreading} (settled : card.Settled) (lost : ∀ id ∈ g.ids, gone id) (spreads : g.spread card = some card') :
    card.Evolves gone extra card' := by
  refine .of_map settled (spread_details spreads) (fun d _ => ?_)
  split
  · exact without_forward lost
  · exact .refl gone d

/-! ### Duplicates and reviews -/

theorem gathered_cites {sources : List Source} {source : Source} (member : source ∈ sources) :
    ∃ other ∈ gathered sources, other.id = source.id :=
  Table.upserts_known (t := (.empty : Table Source.id)) (.inr ⟨source,member,rfl⟩)

theorem citing_id (sources : List Source) (d : Detail) : (d.citing sources).id = d.id := by
  unfold Detail.citing
  split
  · rfl
  · rfl

theorem citing_forward {sources : List Source} (all : ∀ source ∈ d.sources, source ∈ sources) : d.Forward gone (d.citing sources) := by
  unfold Detail.citing
  split
  · exact ⟨rfl,rfl,rfl,.refl _,fun source member => .inr (gathered_cites (all source member))⟩
  · exact .refl gone d

theorem lookup_cites (distinct : card.Distinct) (member : d ∈ card.details) (chosen : p d) {keep : DetailId} (named : d.id = keep)
    (others : List DetailId) : ∀ source ∈ d.sources, source ∈ ((keep::others).filterMap (card.lookup p)).flatMap Detail.sources := by
  intro source cited
  obtain ⟨e,found⟩ := Option.isSome_iff_exists.mp (lookup_isSome.mpr ⟨d,member,chosen,named⟩)
  obtain ⟨inside,_,same⟩ := lookup_some found
  obtain rfl := distinct.unique inside member (same.trans named.symm)
  exact List.mem_flatMap.mpr ⟨e,List.mem_filterMap.mpr ⟨keep,List.mem_cons_self,found⟩,cited⟩

/-- Some details are merged into one of them, which takes the sources of all. -/
theorem Card.Settled.deduplicated (settled : card.Settled) (once : ids.Nodup) (opened : ∀ d, p d → d.reviewable ∨ d.status = .active) :
    card.Evolves gone extra (card.deduplicated p ids) := by
  cases ids with
  | nil => exact .refl settled
  | cons keep others =>
    have kept : card.Evolves gone extra
        (card.amend p (·.citing (((keep::others).filterMap (card.lookup p)).flatMap Detail.sources)) [keep]) := by
      exact settled.amend (List.nodup_singleton keep) (fun d member chosen named =>
        citing_forward (lookup_cites settled.distinct member chosen (List.mem_singleton.mp named) others)) (citing_id _)
    refine kept.trans (kept.settled.amend (List.nodup_cons.mp once).2 (fun d _ chosen _ => .of_status ⟨rfl,rfl,rfl,rfl⟩ ?_) (fun _ => rfl))
    rcases opened d chosen with reviewable | active
    · exact reviewable_forward reviewable
    · exact active_forward active

theorem closed_not_reviewable (closed : d.status.Closed) : ¬d.reviewable := by
  intro reviewable
  simp only [Detail.reviewable,Bool.and_eq_true,Bool.or_eq_true,decide_eq_true_eq] at reviewable
  rcases reviewable.1 with active | pending
  · exact closed.1 active
  · exact closed.2 pending

/-- What is done to the details that a correction replaces. -/
def outdated (ids : List DetailId) (d : Detail) : Detail := if d.reviewable && d.id ∈ ids then d.closed .history else d

theorem outdated_forward (ids : List DetailId) (d : Detail) : d.Forward gone (outdated ids d) := by
  unfold outdated
  split
  · rename_i chosen
    exact closed_forward (reviewable_forward (Bool.and_eq_true_iff.mp chosen).1)
  · exact .refl gone d

theorem outdated_id (ids : List DetailId) (d : Detail) : (outdated ids d).id = d.id := by
  have forward : d.Forward (fun _ => True) (outdated ids d) := outdated_forward ids d
  exact forward.id

theorem outdated_closed (ids : List DetailId) (closed : d.status.Closed) : (outdated ids d).status.Closed := by
  have forward : d.Forward (fun _ => True) (outdated ids d) := outdated_forward ids d
  exact forward.status.closed closed

theorem Card.Settled.outdated (settled : card.Settled) (once : ids.Nodup) :
    (card.amend Detail.reviewable (·.closed .history) ids).details = card.details.map (Preferences.outdated ids) :=
  amend_eq_map settled.distinct once (fun _ => rfl)

theorem Card.Settled.replaced_apart (settled : card.Settled) (member : d ∈ card.details) (reviewable : d.reviewable) {old : DetailId}
    {action : String} {e : Detail} (there : e ∈ card.details) (review : e.id = .review old action) :
    ∃ x ∈ card.details, x.id = old ∧ x.status.Closed ∧ x.id ≠ d.id := by
  obtain ⟨x,inside,same,closed⟩ := settled.replaced e there old action review
  refine ⟨x,inside,same,closed,fun named => ?_⟩
  obtain rfl := settled.distinct.unique inside member named
  exact closed_not_reviewable closed reviewable

theorem Card.Settled.corrected (settled : card.Settled) (once : ids.Nodup) {old new : Detail} (member : old ∈ card.details)
    (reviewable : old.reviewable) (named : old.id ∈ ids) (action : String) (review : new.id = .review old.id action) :
    card.Evolves gone extra (card.replaced ids none new) := by
  have first : card.Evolves gone extra (card.amend Detail.reviewable (·.closed .history) ids) :=
    .of_map settled (settled.outdated once) (fun d _ => outdated_forward ids d)
  refine ⟨fun d inside => ?_,fun d there => ?_,first.settled.append (fun d there same => ?_) (fun other action' same => ?_) rfl⟩
  · obtain ⟨d',there,forward⟩ := first.kept d inside
    exact ⟨d',List.mem_append_left _ there,forward⟩
  · rcases List.mem_append.mp there with inside | single
    · exact first.origin d inside
    · rw [List.mem_singleton.mp single,review]
      exact .inl ⟨old,member,rfl⟩
  · rw [settled.outdated once] at there
    obtain ⟨e,inside,rfl⟩ := List.mem_map.mp there
    rw [(outdated_id ids e),review] at same
    obtain ⟨x,_,named,_,apart⟩ := settled.replaced_apart member reviewable inside same
    exact apart named
  · rw [review] at same
    cases same
    rw [settled.outdated once]
    refine ⟨_,List.mem_map_of_mem member,(outdated_id ids old),?_⟩
    rw [Preferences.outdated,if_pos (by simp [reviewable,named])]
    constructor
    · exact fun wrong => by cases wrong
    · exact fun wrong => by cases wrong

theorem Card.Settled.retained (settled : card.Settled) (once : ids.Nodup) {last new : Detail} (member : last ∈ card.details)
    (reviewable : last.reviewable) (forward : last.Forward gone new) : card.Evolves gone extra (card.replaced ids (some last) new) := by
  have details : (card.replaced ids (some last) new).details =
      (card.details.map (Preferences.outdated ids)).filter (·.id ≠ new.id) ++ [new] := by
    rw [← settled.outdated once]
    rfl
  have others : ∀ d ∈ card.details, d.id ≠ last.id → Preferences.outdated ids d ∈ (card.replaced ids (some last) new).details := by
    intro d inside apart
    rw [details]
    refine List.mem_append_left _ (List.mem_filter.mpr ⟨List.mem_map_of_mem inside,decide_eq_true ?_⟩)
    rw [(outdated_id ids d),forward.id]
    exact apart
  have origin : ∀ d' ∈ (card.replaced ids (some last) new).details, ∃ d ∈ card.details, d.id = d'.id := by
    intro d' there
    rw [details] at there
    rcases List.mem_append.mp there with inside | single
    · obtain ⟨d,member,rfl⟩ := List.mem_map.mp (List.mem_filter.mp inside).1
      exact ⟨d,member,(outdated_id ids d).symm⟩
    · rw [List.mem_singleton.mp single]
      exact ⟨last,member,forward.id.symm⟩
  refine ⟨fun d inside => ?_,fun d' there => ?_,?_,fun d' there old action review => ?_⟩
  · by_cases same : d.id = last.id
    · obtain rfl := settled.distinct.unique inside member same
      exact ⟨new,by rw [details]; simp,forward⟩
    · exact ⟨_,others d inside same,outdated_forward ids d⟩
  · obtain ⟨d,inside,same⟩ := origin d' there
    exact .inl ⟨d,inside,by rw [same]⟩
  · have ids' : (card.details.map (Preferences.outdated ids)).map Detail.id = card.details.map Detail.id := by
      rw [List.map_map]
      exact List.map_congr_left (fun d _ => (outdated_id ids d))
    rw [Card.Distinct,details,List.map_append,List.nodup_append]
    refine ⟨?_,List.nodup_singleton _,fun a member' b single same => ?_⟩
    · have distinct := settled.distinct
      rw [Card.Distinct,← ids'] at distinct
      exact distinct.sublist (List.filter_sublist.map _)
    · obtain ⟨d,inside,rfl⟩ := List.mem_map.mp member'
      rw [List.map_singleton,List.mem_singleton] at single
      exact of_decide_eq_true (List.mem_filter.mp inside).2 (same.trans single)
  · obtain ⟨d,inside,same⟩ := origin d' there
    obtain ⟨x,member',named,closed,apart⟩ := settled.replaced_apart member reviewable inside (same.trans review)
    exact ⟨_,others x member' apart,(outdated_id ids x).trans named,
      outdated_closed ids closed⟩

end

section
variable {dump : Action → String} {available : Available} {p p' : Progress} {a : Action} {limit : Nat} {c : Consolidation} {now : Time}

theorem Carried.evolves (carried : Carried dump available p a p') (settled : p.root.Settled) : p.root.Evolves gone extra p'.root := by
  cases carried with
  | deduplicated names kind several alike => exact settled.deduplicated names.once (fun d reviewable => .inl reviewable)
  | doubted names =>
    exact settled.amend names.once (fun d _ reviewable _ => .of_status ⟨rfl,rfl,rfl,rfl⟩ (reviewable_forward reviewable)) (fun _ => rfl)
  | corrected names corrects value old last sources cited replaces members agrees read =>
    obtain ⟨named,found⟩ := members_found names.found
    change (p.members a).map Detail.id = a.detailIds at named
    change ∀ d ∈ p.members a, _ at found
    rw [members] at named found
    cases last with
    | none =>
      obtain ⟨member,reviewable,_⟩ := lookup_some (found old List.mem_cons_self)
      exact settled.corrected names.once member reviewable (by rw [← named]; exact List.mem_cons_self) (dump a) rfl
    | some last =>
      obtain ⟨member,reviewable,_⟩ := lookup_some (found last (by simp))
      obtain ⟨attitude,condition⟩ := agrees last rfl
      refine settled.retained names.once member reviewable ⟨rfl,attitude.symm,condition.symm,reviewable_forward reviewable,?_⟩
      exact fun source cited => .inr (gathered_cites (List.mem_append_left _ cited))

theorem Carried.settled (carried : Carried dump available p a p') (settled : p.root.Settled) : p'.root.Settled := by
  have evolves : p.root.Evolves (fun _ => True) (fun _ => True) p'.root := carried.evolves settled
  exact evolves.settled

theorem withdrawn_evolves (settled : card.Settled) (unreadable : List SourceId) : card.Evolves gone extra (card.withdrawn unreadable) := by
  refine .of_map settled rfl (fun d _ => ?_)
  split
  · rename_i chosen
    exact .of_status ⟨rfl,rfl,rfl,rfl⟩ (reviewable_forward (Bool.and_eq_true_iff.mp chosen).1)
  · exact .refl gone d

theorem mergedWith_evolves (settled : card.Settled) (target : MemoryId) : card.Evolves gone extra (card.mergedWith target) := by
  refine .of_map settled rfl (fun d _ => ?_)
  split
  · rename_i active
    exact .of_status ⟨rfl,rfl,rfl,rfl⟩ (active_forward active)
  · exact .refl gone d

theorem progress_evolves (ok : c.progress t dump limit = .ok p) (settled : c.root.scope.card.Settled) :
    c.root.scope.card.Evolves gone extra p.root := by
  have related : c.root.scope.card.Evolves gone extra (c.root.scope.card.related c.review.relations) := (Card.Evolves.refl settled).of_details rfl
  simp only [Consolidation.progress] at ok
  split at ok
  · cases ok
    exact withdrawn_evolves settled c.unreadable
  · rcases applyPlan_ok ok with ⟨row,_,_,_,_,_,root,_⟩ | ⟨plain,folded⟩
    · rw [root]
      exact related.trans (mergedWith_evolves related.settled row.id)
    · refine foldlM_invariant (fun p => c.root.scope.card.Evolves gone extra p.root) (fun a member p p' before step => ?_) folded related
      exact before.trans ((carryOut_ok step (plain a member)).evolves before.settled)

theorem taking_details {root : Card} (apart : ∀ d ∈ root.details, ∀ e ∈ card.details, e.id ≠ d.id) :
    (card.taking root).details = card.details ++ root.details := by
  have moved : root.details.filter (fun d => !card.details.any (·.id = d.id)) = root.details := by
    refine List.filter_eq_self.mpr (fun d member => ?_)
    simp only [Bool.not_eq_true',List.any_eq_false,decide_eq_true_eq]
    exact apart d member
  exact congrArg (card.details ++ ·) moved

theorem taking_evolves {root : Card} (settled : card.Settled) (settled' : root.Settled) (apart : ∀ d ∈ root.details, ∀ e ∈ card.details, e.id ≠ d.id)
    (given : ∀ d ∈ root.details, extra d.id.origin) : card.Evolves gone extra (card.taking root) := by
  have details := taking_details apart
  refine ⟨fun d member => ⟨d,by rw [details]; exact List.mem_append_left _ member,.refl gone d⟩,fun d there => ?_,?_,?_⟩
  · rw [details] at there
    rcases List.mem_append.mp there with own | moved
    · exact .inl ⟨d,own,rfl⟩
    · exact .inr (given d moved)
  · rw [Card.Distinct,details,List.map_append,List.nodup_append]
    refine ⟨settled.distinct,settled'.distinct,fun a own b moved => ?_⟩
    obtain ⟨e,member,rfl⟩ := List.mem_map.mp own
    obtain ⟨d,member',rfl⟩ := List.mem_map.mp moved
    exact apart d member' e member
  · intro d there old action review
    rw [details] at there ⊢
    rcases List.mem_append.mp there with own | moved
    · obtain ⟨e,member,rest⟩ := settled.replaced d own old action review
      exact ⟨e,List.mem_append_left _ member,rest⟩
    · obtain ⟨e,member,rest⟩ := settled'.replaced d moved old action review
      exact ⟨e,List.mem_append_right _ member,rest⟩

theorem groups_once (settled : card.Settled) : ∀ group ∈ card.groups t, group.Nodup := by
  intro group member
  obtain ⟨identity,_,rfl⟩ := List.mem_map.mp (List.mem_filter.mp member).1
  exact settled.distinct.sublist ((List.filter_sublist.trans List.filter_sublist).map _)

theorem tidied_evolves {relations : Option (List CardRelation)} (settled : card.Settled) (ok : tidied t card relations now = .ok card') :
    card.Evolves gone extra card' := by
  obtain ⟨⟨merged,claimed⟩,folded,last⟩ := bind_ok.mp ok
  cases last
  have evolves : card.Evolves gone extra merged := by
    refine foldlM_invariant (fun state => card.Evolves gone extra state.1) (fun group member state next before step => ?_) folded (.refl settled)
    obtain ⟨_,_,step⟩ := bind_ok.mp step
    obtain ⟨_,_,step⟩ := bind_ok.mp step
    cases step
    exact before.trans (before.settled.deduplicated (groups_once settled group member) (fun d active => .inr (of_decide_eq_true active)))
  refine evolves.of_details ?_
  cases relations with
  | none => rfl
  | some relations => rfl

end

/-! ### What a review decides -/

section
variable {dump : Action → String} {available : Available} {p p' : Progress} {a : Action} {limit : Nat} {root : Row} {records : List Row}
  {review : Review} {actions : List Action} {q : Detail → Bool} {f : Detail → Detail}

theorem amend_untouched (distinct : card.Distinct) (once : ids.Nodup) (kept : ∀ d, (f d).id = d.id) (member : d ∈ card.details)
    (other : d.id ∉ ids) : d ∈ (card.amend q f ids).details := by
  rw [amend_eq_map distinct once kept]
  exact List.mem_map.mpr ⟨d,member,if_neg (by simp [other])⟩

theorem amend_distinct (distinct : card.Distinct) (once : ids.Nodup) (kept : ∀ d, (f d).id = d.id) : (card.amend q f ids).Distinct := by
  have same : (card.amend q f ids).details.map Detail.id = card.details.map Detail.id := by
    rw [amend_eq_map distinct once kept,List.map_map]
    refine List.map_congr_left (fun d _ => ?_)
    simp only [Function.comp_apply]
    split
    · exact kept d
    · rfl
  rw [Card.Distinct,same]
  exact distinct

theorem Carried.frame (carried : Carried dump available p a p') (settled : p.root.Settled) (member : d ∈ p.root.details)
    (other : d.id ∉ a.detailIds) : d ∈ p'.root.details := by
  cases carried with
  | deduplicated names kind several alike =>
    change d ∈ (p.root.deduplicated Detail.reviewable a.detailIds).details
    have once := names.once
    generalize a.detailIds = ids at once other ⊢
    cases ids with
    | nil => exact member
    | cons keep others =>
      obtain ⟨apart,others_apart⟩ := not_or.mp (fun named => other (List.mem_cons.mpr named))
      have kept := amend_untouched (q := Detail.reviewable)
        (f := (·.citing (((keep::others).filterMap (p.root.lookup Detail.reviewable)).flatMap Detail.sources))) settled.distinct
        (List.nodup_singleton keep) (citing_id _) member (by simpa using apart)
      exact amend_untouched (amend_distinct settled.distinct (List.nodup_singleton keep) (citing_id _)) (List.nodup_cons.mp once).2
        (fun _ => rfl) kept others_apart
  | doubted names => exact amend_untouched settled.distinct names.once (fun _ => rfl) member other
  | corrected names corrects value old last sources cited replaces members agrees read =>
    have outdated := amend_untouched (q := Detail.reviewable) (f := (·.closed .history)) settled.distinct names.once (fun _ => rfl) member other
    cases last with
    | none => exact List.mem_append_left _ outdated
    | some last =>
      obtain ⟨named,_⟩ := members_found names.found
      change (p.members a).map Detail.id = a.detailIds at named
      refine List.mem_append_left _ (List.mem_filter.mpr ⟨outdated,decide_eq_true (fun same => other ?_)⟩)
      rw [← named,members,same]
      simp [Action.corrected]

theorem Carried.claims (carried : Carried dump available p a p') :
    p'.claimed = p.claimed ++ a.detailIds ∧ ∀ id ∈ a.detailIds, id ∉ p.claimed := by
  cases carried with
  | deduplicated names _ _ _ => exact ⟨rfl,names.unclaimed⟩
  | doubted names => exact ⟨rfl,names.unclaimed⟩
  | corrected names _ _ _ _ _ _ _ _ _ _ => exact ⟨rfl,names.unclaimed⟩

theorem carried_run (plain : ∀ a ∈ actions, a.action ≠ .mergeCards)
    (folded : actions.foldlM (carryOut t dump limit root records review available) p = .ok p') :
    Run (Carried dump available) p actions p' :=
  ((Run.of_checked folded).listed plain).imp (fun _ _ _ step => carryOut_ok step.2 step.1)

namespace Carried

theorem run_unclaimed (run : Run (Carried dump available) p actions p') : ∀ a ∈ actions, ∀ id ∈ a.detailIds, id ∉ p.claimed := by
  induction run with
  | nil p => simp
  | cons head _ ih =>
    intro b member id named claimed
    obtain ⟨grown,fresh⟩ := head.claims
    rcases List.mem_cons.mp member with rfl | later
    · exact fresh id named claimed
    · exact ih b later id named (by rw [grown]; exact List.mem_append_left _ claimed)

theorem run_frame (run : Run (Carried dump available) p actions p') (settled : p.root.Settled) (member : d ∈ p.root.details)
    (other : ∀ a ∈ actions, d.id ∉ a.detailIds) : d ∈ p'.root.details := by
  induction run with
  | nil p => exact member
  | @cons p a next actions last head _ ih =>
    exact ih (head.settled settled) (head.frame settled member (other a List.mem_cons_self)) (fun b later => other b (List.mem_cons_of_mem _ later))

theorem run_doubted (run : Run (Carried dump available) p actions p') (settled : p.root.Settled) (listed : a ∈ actions)
    (doubts : a.action = .unsupported ∨ a.action = .pending) (member : d ∈ p.root.details) (reviewable : d.reviewable)
    (named : d.id ∈ a.detailIds) : a.doubted d ∈ p'.root.details := by
  induction run with
  | nil p => cases listed
  | @cons p b next actions last head tail ih =>
    rcases List.mem_cons.mp listed with rfl | later
    · have done : a.doubted d ∈ next.root.details := by
        cases head with
        | deduplicated names kind several alike => simp [kind] at doubts
        | corrected names corrects value old last sources cited replaces members agrees read =>
          rcases corrects with kind | kind <;> simp [kind] at doubts
        | doubted names =>
          change a.doubted d ∈ (p.root.amend Detail.reviewable a.doubted a.detailIds).details
          have details := amend_eq_map (p := Detail.reviewable) (f := a.doubted) settled.distinct names.once (fun _ => rfl)
          rw [details]
          exact List.mem_map.mpr ⟨d,member,if_pos (by simp [reviewable,named])⟩
      refine run_frame tail (head.settled settled) done (fun b later again => run_unclaimed tail b later _ again ?_)
      rw [head.claims.1]
      exact List.mem_append_right _ named
    · refine ih (head.settled settled) later (head.frame settled member (fun again => run_unclaimed tail a later _ named ?_))
      rw [head.claims.1]
      exact List.mem_append_right _ again

end Carried

theorem applyPlan_assessed (ok : applyPlan t dump limit root records review available = .ok p) (distinct : root.scope.card.Distinct) :
    ∀ d ∈ root.scope.card.details, d.reviewable → ∃ x ∈ review.assessments, x.detailId = d.id ∧
      ∃ source ∈ d.sources, (available.find? source.id).isSome := by
  intro d member reviewable
  obtain ⟨_,_,ok⟩ := bind_ok.mp ok
  obtain ⟨_,assessed,ok⟩ := bind_ok.mp ok
  obtain ⟨_,_,ok⟩ := bind_ok.mp ok
  obtain ⟨_,checked,_⟩ := bind_ok.mp ok
  have listed : d.id ∈ review.assessments.map Assessment.detailId :=
    (require_ok.mp assessed).2.2 d.id (List.mem_map_of_mem (List.mem_filter.mpr ⟨member,reviewable⟩))
  obtain ⟨x,given,same⟩ := List.mem_map.mp listed
  obtain ⟨_,covers,check⟩ := bind_ok.mp (forM_ok checked x given)
  obtain ⟨e,found,check⟩ := bind_ok.mp check
  obtain ⟨_,cites,_⟩ := bind_ok.mp check
  obtain ⟨inside,_,named⟩ := lookup_some (demand_ok.mp found)
  obtain rfl := distinct.unique inside member (named.trans same)
  obtain ⟨source,cited,given'⟩ := require_ok.mp cites
  exact ⟨x,given,same,source,cited,require_ok.mp covers source.id given'⟩

theorem carried_assessed {x : Assessment} (given : x ∈ review.assessments) (doubted : x.verdict ≠ .supported) (id : MemoryId) :
    ∃ a ∈ review.carried id, (a.action = .unsupported ∨ a.action = .pending) ∧ x.detailId ∈ a.detailIds ∧ ∀ d : Detail,
      a.doubted d = { d with status := if x.verdict = .unsupported then .retracted else .pendingReview,reviewReason := some x.reason } := by
  have follows : ∃ a, x.action id = some a ∧ (a.action = .unsupported ∨ a.action = .pending) ∧ x.detailId ∈ a.detailIds ∧ ∀ d : Detail,
      a.doubted d = { d with status := if x.verdict = .unsupported then .retracted else .pendingReview,reviewReason := some x.reason } := by
    refine ⟨_,if_neg doubted,?_,List.mem_singleton_self _,fun d => ?_⟩
    · by_cases unsupported : x.verdict = .unsupported
      · exact .inl (if_pos unsupported)
      · exact .inr (if_neg unsupported)
    · by_cases unsupported : x.verdict = .unsupported
      · simp [Action.doubted,unsupported]
      · simp [Action.doubted,unsupported]
  obtain ⟨a,action,rest⟩ := follows
  exact ⟨a,List.mem_append_right _ (List.mem_filterMap.mpr ⟨x,given,action⟩),rest⟩

/-- A review decides on every detail that can be reviewed: one that is not supported is taken
back or put off, whatever the plan wants to do with it, and one that nothing decides on stays. -/
theorem review_decides (ok : applyPlan t dump limit root records review available = .ok p) (settled : root.scope.card.Settled) :
    (∀ d ∈ root.scope.card.details, d.reviewable → ∃ x ∈ review.assessments, x.detailId = d.id ∧ (x.verdict ≠ .supported →
      { d with status := if x.verdict = .unsupported then .retracted else .pendingReview,reviewReason := some x.reason } ∈ p.root.details)) ∧
    ∀ d ∈ root.scope.card.details, (∀ a ∈ review.carried root.id, a.action ≠ .mergeCards ∧ d.id ∉ a.detailIds) → d ∈ p.root.details := by
  have related : (root.scope.card.related review.relations).Settled := ⟨settled.distinct,settled.replaced⟩
  refine ⟨fun d member reviewable => ?_,fun d member idle => ?_⟩
  · obtain ⟨x,given,same,_⟩ := applyPlan_assessed ok settled.distinct d member reviewable
    refine ⟨x,given,same,fun doubted => ?_⟩
    obtain ⟨a,listed,doubts,named,becomes⟩ := carried_assessed given doubted root.id
    rw [← becomes]
    rcases applyPlan_ok ok with ⟨row,_,_,_,_,⟨b,only,merges⟩,_⟩ | ⟨plain,folded⟩
    · rw [only,List.mem_singleton] at listed
      subst listed
      rcases doubts with kind | kind <;> simp [kind] at merges
    · exact Carried.run_doubted (carried_run plain folded) related listed doubts member reviewable (same ▸ named)
  · rcases applyPlan_ok ok with ⟨row,_,_,_,_,⟨b,only,merges⟩,_⟩ | ⟨plain,folded⟩
    · exact absurd merges (idle b (by rw [only]; exact List.mem_singleton_self b)).1
    · exact Carried.run_frame (carried_run plain folded) related member (fun a listed => (idle a listed).2)

/-- A card of two messages, of which a review believes the later one. -/
def coffeeRow : Row where
  id := 10
  spaceId := 1
  memoryType := .preference
  content := "用户关于咖啡的偏好：我喜欢coffee；现在不喜欢咖啡"
  importance := 4/5
  confidence := 19/20
  status := .active
  memoryKey := none
  scope := {
    card := {
      subject := "用户",preferenceObject := "咖啡",ownerId := "owner"
      details := [likesCoffee.entry false,dislikesCoffee.entry false] }
    canonicalTopic := "咖啡"
    ownerId := "owner" }
  updatedAt := 0

def disbelieved : Preferences.Review where
  assessments := [dislikeSupported,{
    detailId := (likesCoffee.entry false).id,verdict := .unsupported,sourceIds := [likesCoffee.source.id]
    reason := "原文是转述",cited := List.cons_ne_nil _ _ }]

def coffeeRead : Available := [likesCoffee.evidence,dislikesCoffee.evidence].foldl Table.upsert .empty

theorem coffeeRow_settled : coffeeRow.scope.card.Settled where
  distinct := by
    unfold Card.Distinct
    decide
  replaced d member old action review := by
    rcases List.mem_pair.mp member with rfl | rfl <;> cases review

theorem review_decides_coffee : ∃ p,
    applyPlan Runtime.plain.t Runtime.plain.dump 20 coffeeRow [coffeeRow] disbelieved coffeeRead = .ok p ∧
      { likesCoffee.entry false with status := .retracted,reviewReason := some "原文是转述" } ∈ p.root.details ∧
      dislikesCoffee.entry false ∈ p.root.details := by
  have passes : (applyPlan Runtime.plain.t Runtime.plain.dump 20 coffeeRow [coffeeRow] disbelieved coffeeRead).toOption.isSome := by
    decide +kernel
  obtain ⟨p,found⟩ := Option.isSome_iff_exists.mp passes
  have ok := ok_of_toOption found
  obtain ⟨decided,stays⟩ := review_decides ok coffeeRow_settled
  refine ⟨p,ok,?_,stays _ (List.mem_pair.mpr (.inr rfl)) (by decide)⟩
  obtain ⟨x,given,same,becomes⟩ := decided (likesCoffee.entry false) (List.mem_pair.mpr (.inl rfl)) (by decide)
  rcases List.mem_pair.mp given with rfl | rfl
  · exact absurd same (by decide)
  · exact becomes (by decide)

/-! ### Evidence -/

def Card.Evidenced (available : Available) (card : Card) : Prop :=
  ∀ d ∈ card.details, d.reviewable → ∃ source ∈ d.sources, (available.find? source.id).isSome

theorem Card.Evidenced.of_map (evidenced : card.Evidenced available) (same : card'.details = card.details.map f)
    (cites : ∀ d ∈ card.details, (f d).reviewable → d.reviewable ∧ ∀ source ∈ d.sources, ∃ other ∈ (f d).sources, other.id = source.id) :
    card'.Evidenced available := by
  intro d' there reviewable
  rw [same] at there
  obtain ⟨d,member,rfl⟩ := List.mem_map.mp there
  obtain ⟨open',kept⟩ := cites d member reviewable
  obtain ⟨source,cited,read⟩ := evidenced d member open'
  obtain ⟨other,cited',named⟩ := kept source cited
  exact ⟨other,cited',by rw [named]; exact read⟩

theorem Card.Evidenced.amend (evidenced : card.Evidenced available) (distinct : card.Distinct) (once : ids.Nodup)
    (kept : ∀ d, (f d).id = d.id) (cites : ∀ d ∈ card.details, q d → d.id ∈ ids → (f d).reviewable →
      d.reviewable ∧ ∀ source ∈ d.sources, ∃ other ∈ (f d).sources, other.id = source.id) :
    (card.amend q f ids).Evidenced available := by
  refine evidenced.of_map (amend_eq_map distinct once kept) (fun d member reviewable => ?_)
  split
  · rename_i chosen
    rw [if_pos chosen] at reviewable
    simp only [Bool.and_eq_true,decide_eq_true_eq] at chosen
    exact cites d member chosen.1 chosen.2 reviewable
  · rename_i other
    rw [if_neg other] at reviewable
    exact ⟨reviewable,fun source cited => ⟨source,cited,rfl⟩⟩

theorem merged_not_reviewable (target : Option MergedInto) : ¬({ d with status := .merged,mergedInto := target } : Detail).reviewable := by
  simp [Detail.reviewable]

theorem Card.Evidenced.deduplicated (evidenced : card.Evidenced available) (distinct : card.Distinct) (once : ids.Nodup) :
    (card.deduplicated Detail.reviewable ids).Evidenced available := by
  cases ids with
  | nil => exact evidenced
  | cons keep others =>
    refine Card.Evidenced.amend ?_ (amend_distinct distinct (List.nodup_singleton keep) (citing_id _)) (List.nodup_cons.mp once).2
      (fun _ => rfl) (fun d _ _ _ reviewable => absurd reviewable (merged_not_reviewable _))
    refine evidenced.amend distinct (List.nodup_singleton keep) (citing_id _) (fun d member chosen named _ => ⟨chosen,fun source cited => ?_⟩)
    have forward : d.Forward (fun _ => False) _ := citing_forward (lookup_cites distinct member chosen (List.mem_singleton.mp named) others)
    exact (forward.cited source cited).resolve_left id

theorem available_read {sources : List Source} (cited : sources ≠ []) (read : ∀ source ∈ sources, ∃ e ∈ available, e.source = source) :
    ∃ source ∈ sources, (available.find? source.id).isSome := by
  obtain ⟨source,rest,rfl⟩ := List.exists_cons_of_ne_nil cited
  obtain ⟨e,there,same⟩ := read source List.mem_cons_self
  have found : available.find? source.id = some e := by
    rw [← same]
    exact Table.find?_mem there
  exact ⟨source,List.mem_cons_self,by rw [found]; rfl⟩

theorem Carried.evidenced (carried : Carried dump available p a p') (settled : p.root.Settled) (evidenced : p.root.Evidenced available) :
    p'.root.Evidenced available := by
  cases carried with
  | deduplicated names kind several alike => exact evidenced.deduplicated settled.distinct names.once
  | doubted names =>
    refine evidenced.of_map (amend_eq_map settled.distinct names.once (fun _ => rfl)) (fun d _ reviewable => ?_)
    split
    · rename_i chosen
      exact ⟨(Bool.and_eq_true_iff.mp chosen).1,fun source cited => ⟨source,cited,rfl⟩⟩
    · rename_i other
      rw [if_neg other] at reviewable
      exact ⟨reviewable,fun source cited => ⟨source,cited,rfl⟩⟩
  | corrected names corrects value old last sources cited replaces members agrees read =>
    have outdated : (p.root.amend Detail.reviewable (·.closed .history) a.detailIds).Evidenced available := by
      refine evidenced.of_map (settled.outdated names.once) (fun d _ reviewable => ?_)
      unfold Preferences.outdated at reviewable ⊢
      split
      · rename_i chosen
        rw [if_pos chosen] at reviewable
        simp [Detail.closed,Detail.reviewable] at reviewable
      · rename_i other
        rw [if_neg other] at reviewable
        exact ⟨reviewable,fun source cited => ⟨source,cited,rfl⟩⟩
    obtain ⟨source,given,known⟩ := available_read cited read
    intro d there reviewable
    cases last with
    | none =>
      rcases List.mem_append.mp there with before | new
      · exact outdated d before reviewable
      · rw [List.mem_singleton.mp new]
        exact ⟨source,given,known⟩
    | some last =>
      rcases List.mem_append.mp there with before | new
      · exact outdated d (List.mem_filter.mp before).1 reviewable
      · rw [List.mem_singleton.mp new]
        obtain ⟨other,cited',same⟩ := gathered_cites (List.mem_append_right last.sources given)
        exact ⟨other,cited',by rw [same]; exact known⟩

def Consolidation.Covered (c : Consolidation) : Prop :=
  ∀ d ∈ c.root.scope.card.details, d.reviewable → ∀ source ∈ d.sources,
    source.id ∈ c.unreadable ∨ (c.available.find? source.id).isSome

instance (c : Consolidation) : Decidable c.Covered :=
  inferInstanceAs (Decidable (∀ d ∈ c.root.scope.card.details, d.reviewable → ∀ source ∈ d.sources,
    source.id ∈ c.unreadable ∨ (c.available.find? source.id).isSome))

theorem progress_evidenced {c : Consolidation} (ok : c.progress t dump limit = .ok p) (settled : c.root.scope.card.Settled)
    (covered : c.Covered) : p.root.Evidenced c.available := by
  simp only [Consolidation.progress] at ok
  split at ok
  · cases ok
    intro d' there reviewable
    obtain ⟨d,member,rfl⟩ := List.mem_map.mp there
    split at reviewable
    · simp [Detail.reviewable] at reviewable
    · rename_i readable
      rw [if_neg readable]
      obtain ⟨source,cited⟩ := List.exists_mem_of_ne_nil _ d.cited
      refine ⟨source,cited,(covered d member reviewable source cited).resolve_left (fun lost => readable ?_)⟩
      rw [reviewable,Bool.true_and]
      exact List.any_eq_true.mpr ⟨source,cited,decide_eq_true lost⟩
  · have assessed : (c.root.scope.card.related c.review.relations).Evidenced c.available := fun d member reviewable =>
      (applyPlan_assessed ok settled.distinct d member reviewable).elim (fun _ rest => rest.2.2)
    rcases applyPlan_ok ok with ⟨row,_,_,_,_,_,root,_⟩ | ⟨plain,folded⟩
    · rw [root]
      refine assessed.of_map rfl (fun d _ reviewable => ?_)
      split
      · rename_i active
        rw [if_pos active] at reviewable
        exact absurd reviewable (merged_not_reviewable _)
      · rename_i other
        rw [if_neg other] at reviewable
        exact ⟨reviewable,fun source cited => ⟨source,cited,rfl⟩⟩
    · have related : (c.root.scope.card.related c.review.relations).Settled := ⟨settled.distinct,settled.replaced⟩
      exact ((carried_run plain folded).invariant (fun p => p.root.Settled ∧ p.root.Evidenced c.available)
        (fun p a q held step => ⟨step.settled held.1,step.evidenced held.1 held.2⟩)
        ⟨related,assessed⟩).2

end

/-! ### Where the details are kept -/

def SourceId.noteId : SourceId → NoteId
  | .message noteId _ _ | .context _ noteId _ => noteId

/-- What the message that a detail goes back to looks for, its note being in the space and by
the user that is given. -/
def wantedOf (home : NoteId → SpaceId × String) (origin : SourceId × DetailInput) : Wanted where
  spaceId := (home origin.1.noteId).1
  subject := origin.2.subject
  preferenceObject := origin.2.preferenceObject
  ownerId := (home origin.1.noteId).2

/-- The card under the key leads to the card. -/
def Held (t : Texts) (s : Store Scope) (w : Wanted) (id : MemoryId) : Prop := ∃ k ∈ s.memories, w.names t k ∧ Leads (link s) k.id id

def Detail.SaidIn (d : Detail) (card : Card) : Prop :=
  ∃ e ∈ card.details, e.id = d.id ∧ e.attitude = d.attitude ∧ e.condition = d.condition

/-- Every detail is in a card that the card of its message leads to, and what is in a card that
is merged is in the one it is merged into. -/
structure Filed (t : Texts) (home : NoteId → SpaceId × String) (s : Store Scope) : Prop where
  settled : ∀ m ∈ s.memories, m.scope.card.Settled
  held : ∀ m ∈ s.memories, ∀ d ∈ m.scope.card.details, Held t s (wantedOf home d.id.origin) m.id
  carried : ∀ m ∈ s.memories, ∀ n ∈ s.memories, link s m.id = some n.id → ∀ d ∈ m.scope.card.details, d.SaidIn n.scope.card

section
variable {home : NoteId → SpaceId × String} {s s' : Store Scope} {m n m' : Row} {w : Wanted} {lost : SpaceId → SourceId → Prop}

theorem Held.later {id : MemoryId} (held : Held t s w id) (wellformed : Wellformed t s) (advances : Advances t s s') : Held t s' w id := by
  obtain ⟨k,member,names,leads⟩ := held
  obtain ⟨k',there,same,kept⟩ := advances.progresses.kept k member
  exact ⟨k',there,names.kept kept (wellformed.cards k member),same ▸ leads.mono (fun _ _ => advances.relinks.mono)⟩

theorem Filed.apart (filed : Filed t home s) (wellformed : Wellformed t s) (member : m ∈ s.memories) (there : n ∈ s.memories)
    (unmerged : link s m.id = none) (unmerged' : link s n.id = none) (inside : d ∈ m.scope.card.details)
    (inside' : d' ∈ n.scope.card.details) (same : d.id = d'.id) : m = n := by
  obtain ⟨k,listed,names,leads⟩ := filed.held m member d inside
  obtain ⟨k',listed',names',leads'⟩ := filed.held n there d' inside'
  rw [← same] at names'
  obtain rfl := wellformed.one_card listed listed' names names'
  exact s.memories.unique member there (Ends.unique ⟨leads,unmerged⟩ ⟨leads',unmerged'⟩)

theorem Detail.SaidIn.kept {card card' : Card} (said : d.SaidIn card) (evolves : card.Evolves gone extra card') : d.SaidIn card' := by
  obtain ⟨e,there,same,attitude,condition⟩ := said
  obtain ⟨e',inside,forward⟩ := evolves.kept e there
  exact ⟨e',inside,forward.id.trans same,forward.attitude.trans attitude,forward.condition.trans condition⟩

/-- What a transaction makes of the cards: each is there in a later form, one that is merged
with the details it has, or is new; and a card that becomes merged leaves its details where it
is merged into. -/
structure Files (t : Texts) (home : NoteId → SpaceId × String) (lost : SpaceId → SourceId → Prop) (s s' : Store Scope) : Prop where
  rows : ∀ m' ∈ s'.memories,
    (∃ m ∈ s.memories, m.id = m'.id ∧
      m.scope.card.Evolves (lost m.spaceId) (fun origin => Held t s' (wantedOf home origin) m'.id) m'.scope.card ∧
      (m.scope.card.mergedInto.isSome → m'.scope.card.details.map Detail.id = m.scope.card.details.map Detail.id)) ∨
    m'.scope.card.Settled ∧ (∀ d ∈ m'.scope.card.details, Held t s' (wantedOf home d.id.origin) m'.id) ∧ ∀ m ∈ s.memories, m.id ≠ m'.id
  merges : ∀ m' ∈ s'.memories, ∀ n' ∈ s'.memories, link s m'.id ≠ some n'.id → link s' m'.id = some n'.id →
    ∀ d ∈ m'.scope.card.details, d.SaidIn n'.scope.card

theorem Filed.files (filed : Filed t home s) (wellformed : Wellformed t s) (advances : Advances t s s') (files : Files t home lost s s') :
    Filed t home s' := by
  refine ⟨fun m' member => ?_,fun m' member d' inside => ?_,fun m' member n' there linked d' inside => ?_⟩
  · rcases files.rows m' member with ⟨m,_,_,evolves,_⟩ | ⟨settled,_⟩
    · exact evolves.settled
    · exact settled
  · rcases files.rows m' member with ⟨m,before,same,evolves,_⟩ | ⟨_,held,_⟩
    · rcases evolves.origin d' inside with ⟨d,old,origin⟩ | new
      · rw [← origin,← same]
        exact (filed.held m before d old).later wellformed advances
      · exact new
    · exact held d' inside
  · by_cases old : link s m'.id = some n'.id
    · obtain ⟨m,found,merged⟩ := Option.bind_eq_some_iff.mp old
      obtain ⟨before,same⟩ := Table.find?_eq_some.mp found
      obtain ⟨n,before',same',_⟩ := wellformed.linked m before n'.id (by rw [same]; exact old)
      have frozen : ∃ d ∈ m.scope.card.details, d.Forward (lost m.spaceId) d' := by
        rcases files.rows m' member with ⟨x,listed,named,evolves,frozen⟩ | ⟨_,_,new⟩
        · obtain rfl := s.memories.unique listed before (named.trans same.symm)
          have ids := frozen (by rw [merged]; rfl)
          have known : d'.id ∈ x.scope.card.details.map Detail.id := by
            rw [← ids]
            exact List.mem_map_of_mem inside
          obtain ⟨d,had,named⟩ := List.mem_map.mp known
          obtain ⟨e,kept,forward⟩ := evolves.kept d had
          obtain rfl := evolves.settled.distinct.unique kept inside (forward.id.trans named)
          exact ⟨d,had,forward⟩
        · exact absurd same (new m before)
      obtain ⟨d,had,forward⟩ := frozen
      have said := filed.carried m before n before' (by rw [same,same']; exact old) d had
      have said' : d.SaidIn n'.scope.card := by
        rcases files.rows n' there with ⟨x,listed,named,evolves,_⟩ | ⟨_,_,new⟩
        · obtain rfl := s.memories.unique listed before' (named.trans same'.symm)
          exact said.kept evolves
        · exact absurd same' (new n before')
      obtain ⟨e,inside',named,attitude,condition⟩ := said'
      exact ⟨e,inside',named.trans forward.id.symm,attitude.trans forward.attitude.symm,condition.trans forward.condition.symm⟩
    · exact files.merges m' member n' there old linked d' inside

theorem Files.of_same (filed : Filed t home s) (same : ∀ k, (s'.memories.find? k).map Memory.scope = (s.memories.find? k).map Memory.scope) :
    Files t home lost s s' := by
  refine ⟨fun m' member => ?_,fun m' member n' there old linked => ?_⟩
  · have found := same m'.id
    rw [Table.find?_mem member,Option.map_some] at found
    obtain ⟨m,read,scope⟩ := Option.map_eq_some_iff.mp found.symm
    obtain ⟨before,id⟩ := Table.find?_eq_some.mp read
    refine .inl ⟨m,before,id,?_,fun _ => by rw [scope]⟩
    rw [← scope]
    exact .refl (filed.settled m before)
  · have unchanged : link s' m'.id = link s m'.id := by
      have read := congrArg (fun scope => scope.bind (fun scope => scope.card.mergedInto)) (same m'.id)
      simpa only [link,Option.bind_map,Function.comp_def] using read
    exact absurd (unchanged ▸ linked) old

theorem Files.of_memories (filed : Filed t home s) (same : s'.memories = s.memories) : Files t home lost s s' :=
  .of_same filed (fun k => by rw [same])

/-! ### What each transaction makes of them -/

variable {write : Write} {job : Job} {row : Row} {newId : MemoryId} {now : Time} {P : Event → Prop} {state : State} {draw : Draw}

def Homed (home : NoteId → SpaceId × String) : Event → Prop
  | .message m => home m.note.id = (m.note.spaceId,m.note.owner)
  | _ => True

theorem wantedOf_message {message : Message} (homed : Homed home (.message message)) :
    wantedOf home (message.source.id,message.detail) = message.wanted := by
  have noteId : message.source.id.noteId = message.note.id := rfl
  rw [wantedOf,noteId,show home message.note.id = _ from homed]
  rfl

theorem Job.write_evolves (writes : job.write rt now = .ok (some write)) (current : job.current = some row)
    (unmerged : job.Unmerged) (settled : row.scope.card.Settled)
    (message : ∀ m tries answer relations, job = .message m tries (some row) answer relations → extra (m.source.id,m.detail))
    (forgotten : ∀ f, job = .spread f row → ∀ source ∈ f.ids, gone source) :
    row.scope.card.Evolves gone extra write.card ∧
      (row.scope.card.mergedInto.isSome → write.card.details.map Detail.id = row.scope.card.details.map Detail.id) := by
  have vacuous : row.scope.card.mergedInto = none → row.scope.card.mergedInto.isSome →
      write.card.details.map Detail.id = row.scope.card.details.map Detail.id := by
    intro none merged
    rw [none] at merged
    cases merged
  cases job with
  | message m tries read answer relations =>
    cases current
    obtain ⟨round,integrated,last⟩ := bind_ok.mp writes
    cases round with
    | writes card action =>
      simp only [pure,Except.pure,Except.ok.injEq,Option.some.injEq] at last
      subst last
      have opening : row.scope.card.Evolves gone extra (m.opening (some row)) := opening_evolves settled
      exact ⟨opening.trans ((integrate_writes integrated).1.evolves opening.settled (message m tries answer relations rfl)),
        vacuous (unmerged row rfl)⟩
    | discarded => cases last
    | unclear _ => cases last
    | full => cases last
    | present => cases last
  | forget f read =>
    cases current
    obtain ⟨chosen,_,last⟩ := bind_ok.mp writes
    simp only [pure,Except.pure,Except.ok.injEq] at last
    split at last
    · cases last
    · cases last
      exact ⟨forget_evolves settled chosen,vacuous (unmerged row rfl)⟩
  | spread f read =>
    cases current
    cases spreads : f.spread row.scope.card with
    | none => simp [Job.write,spreads,pure,Except.pure] at writes
    | some card =>
      simp only [Job.write,spreads,Option.map_some,pure,Except.pure,Except.ok.injEq,Option.some.injEq] at writes
      subst writes
      refine ⟨spread_evolves settled (forgotten f rfl) spreads,fun _ => ?_⟩
      simp only [spread_details spreads,List.map_map]
      refine List.map_congr_left (fun d _ => ?_)
      simp only [Function.comp_apply]
      split
      · exact without_id f.ids d
      · rfl
  | tidy read relations =>
    cases current
    obtain ⟨card,ok,last⟩ := bind_ok.mp writes
    simp only [pure,Except.pure,Except.ok.injEq] at last
    obtain ⟨source,_,rfl⟩ := Option.map_eq_some_iff.mp last
    exact ⟨tidied_evolves settled ok,vacuous (open?_unmerged unmerged)⟩
  | consolidate c => cases writes

theorem Job.write_first {message : Message} {tries : Nat} {answer : CardPlan} {relations : List CardRelation}
    (writes : Job.write rt now (.message message tries none answer relations) = .ok (some write)) :
    write.card.Settled ∧ ∀ d ∈ write.card.details, d.id.origin = (message.source.id,message.detail) := by
  obtain ⟨round,integrated,last⟩ := bind_ok.mp writes
  cases round with
  | writes card action =>
    simp only [pure,Except.pure,Except.ok.injEq,Option.some.injEq] at last
    subst last
    have settled : (message.opening none).Settled := ⟨List.nodup_nil,fun d inside => absurd inside List.not_mem_nil⟩
    have evolves : (message.opening none).Evolves (fun _ => True) (· = (message.source.id,message.detail)) card :=
      (integrate_writes integrated).1.evolves settled rfl
    refine ⟨evolves.settled,fun d there => ?_⟩
    rcases evolves.origin d there with ⟨e,inside,_⟩ | new
    · exact absurd inside List.not_mem_nil
    · exact new
  | discarded => cases last
  | unclear _ => cases last
  | full => cases last
  | present => cases last

theorem Job.written_files (filed : Filed rt.t home s) (wellformed : Wellformed rt.t s) (advances : Advances rt.t s s')
    (applied : write.Applied rt newId now s s') (writes : job.write rt now = .ok (some write)) (sound : job.Sound rt.t s)
    (placed : job.Placed rt.t state) (same : state.store = s) (meets : job.Meets (Homed home))
    (forgotten : ∀ space source, (state.forgotten.find? (space,source)).isSome → lost space source) : Files rt.t home lost s s' := by
  obtain ⟨fits,current⟩ := Job.write_fits writes sound.unmerged
  cases applied with
  | kept same => exact .of_memories filed same
  | inserted new fresh rows apart =>
    rw [new] at current
    have message : ∃ m tries answer relations, job = .message m tries none answer relations := by
      cases job with
      | message m tries read answer relations => exact ⟨m,tries,answer,relations,by rw [show read = none from current.symm]⟩
      | forget f read =>
        rw [show read = none from current.symm] at writes
        cases writes
      | spread f row => cases current
      | tidy row relations => cases current
      | consolidate c => cases current
    obtain ⟨m,tries,answer,relations,rfl⟩ := message
    obtain ⟨space,key⟩ := Job.write_new writes
    obtain ⟨settled,origin⟩ := Job.write_first writes
    have unlinked : ∀ id, link s' id = link s id := fun id => link_insert rows (fits.new new)
    have there := (Table.mem_insert rows).mpr (.inr rfl)
    refine ⟨fun m' member => ?_,fun m' _ n' _ old linked => absurd ((unlinked _).symm.trans linked) old⟩
    rcases (Table.mem_insert rows).mp member with before | rfl
    · exact .inl ⟨m',before,rfl,.refl (filed.settled m' before),fun _ => rfl⟩
    · refine .inr ⟨⟨settled.distinct,settled.replaced⟩,fun d inside => ⟨_,there,?_,.refl⟩,fun n before same => ?_⟩
      · rw [origin d inside,wantedOf_message meets]
        exact ⟨space,congrArg some (Write.effectiveKey.trans key)⟩
      · exact (Table.insert_eq_some.mp rows).1 n before same
  | @updated row m read there unmoved rows apart =>
    rw [read] at current
    have reads : job.Reads row := by
      cases job with
      | consolidate c => cases writes
      | message m tries read answer relations => exact current.symm
      | forget f read => exact current.symm
      | spread f row => exact current.symm
      | tidy row relations => exact current.symm
    obtain rfl := (sound.seen row reads).known.current there unmoved
    obtain ⟨member,_⟩ := Table.find?_eq_some.mp there
    have follows := fits.follows m read
    have evolves : m.scope.card.Evolves (lost m.spaceId) (fun origin => Held rt.t s' (wantedOf home origin) m.id) write.card ∧ _ :=
      Job.write_evolves writes current.symm sound.unmerged (filed.settled m member) (fun message tries answer relations given => by
        subst given
        obtain ⟨k,listed,names,_,leads⟩ := placed m rfl
        rw [same] at listed leads
        rw [wantedOf_message meets]
        exact Held.later ⟨k,listed,names,leads⟩ wellformed advances) (fun f given source cited => by
        subst given
        exact forgotten _ _ (placed source cited))
    have unlinked : ∀ id, link s' id = link s id := by
      intro id
      rw [link,rows,Table.find?_put_of (r := write.updated rt newId now m) _ there]
      split
      · rename_i own
        rw [own]
        exact follows.mergedInto.trans (link_mem member).symm
      · rfl
    refine ⟨fun m' member' => ?_,fun m' _ n' _ old linked => absurd ((unlinked _).symm.trans linked) old⟩
    rw [rows] at member'
    rcases Table.mem_put.mp member' with ⟨before,_⟩ | ⟨rfl,_⟩
    · exact .inl ⟨m',before,rfl,.refl (filed.settled m' before),fun _ => rfl⟩
    · exact .inl ⟨m,member,rfl,evolves.1.of_details rfl,evolves.2⟩

variable {c : Consolidation} {p : Progress} {drafts : Drafts}

theorem Draft.written_details (d : Draft) (root : MemoryId) :
    (d.written rt root now d.row).scope.card.details = d.card.details := by
  have card : (d.written rt root now d.row).scope.card = d.card ∨
      (d.written rt root now d.row).scope.card = d.card.projected rt.t := d.written_card root
  rcases card with same | same
  · rw [same]
  · rw [same]
    rfl

theorem Committed.drafted_row (committed : Committed rt c now s s' p drafts) {d : Draft} (drafted : d ∈ drafts) (member : m' ∈ s'.memories)
    (same : m'.id = d.id) : m'.scope.card.details = d.card.details := by
  have found := committed.written drafted
  rw [← same,Table.find?_mem member] at found
  rw [Option.some.inj found]
  exact d.written_details c.root.id

theorem Consolidation.Merging.apart_details {card : Card} (merging : c.Merging p row card) (filed : Filed t home s)
    (wellformed : Wellformed t s) (sound : c.Sound) (member : c.root ∈ s.memories) (there : row ∈ s.memories) :
    ∀ d ∈ card.details, ∀ e ∈ row.scope.card.details, e.id ≠ d.id := by
  intro d inside e inside' same
  rw [merging.details] at inside
  have unmerged : link s c.root.id = none := (link_mem member).trans (open?_unmerged sound.root)
  have unmerged' : link s row.id = none := (link_mem there).trans (sound.records row merging.listed).2
  exact merging.apart (congrArg Memory.id (filed.apart wellformed there member unmerged' unmerged inside' inside same))

/-- The transaction of a review. -/
theorem Committed.files (committed : Committed rt c now s s' p drafts) (filed : Filed rt.t home s) (wellformed : Wellformed rt.t s)
    (advances : Advances rt.t s s') (sound : c.Sound) : Files rt.t home lost s s' := by
  have root := (Table.find?_eq_some.mp committed.drafted.root).1
  obtain ⟨inside,_⟩ := Table.find?_eq_some.mp (committed.current _ root)
  change c.root ∈ s.memories at inside
  refine ⟨fun m' member => ?_,fun m' member n' there old linked => ?_⟩
  · have found := committed.found m'.id
    rw [Table.find?_mem member] at found
    obtain ⟨m,read,written⟩ := Option.map_eq_some_iff.mp found.symm
    obtain ⟨before,same⟩ := Table.find?_eq_some.mp read
    refine .inl ⟨m,before,same,?_⟩
    cases drafted : drafts.find? m'.id with
    | none =>
      rw [drafted] at written
      obtain rfl : m = m' := written
      exact ⟨.refl (filed.settled m before),fun _ => rfl⟩
    | some d =>
      obtain ⟨listed,named⟩ := Table.find?_eq_some.mp drafted
      obtain rfl : d.row = m := by
        have current := committed.current d listed
        rw [named] at current
        exact Option.some.inj (current.symm.trans read)
      have details := committed.drafted_row listed member named.symm
      rw [details]
      have vacuous : d.row.scope.card.mergedInto = none → d.row.scope.card.mergedInto.isSome →
          d.card.details.map Detail.id = d.row.scope.card.details.map Detail.id := by
        intro none merged
        rw [none] at merged
        cases merged
      have evolves : d.row.scope.card.Evolves (lost d.row.spaceId) (fun origin => Held rt.t s' (wantedOf home origin) m'.id) d.card ∧
          (d.row.scope.card.mergedInto.isSome → d.card.details.map Detail.id = d.row.scope.card.details.map Detail.id) := by
        rcases committed.drafted.others d listed with own | ⟨e,chosen,same'⟩ | relinked
        · obtain rfl := drafts.unique listed root own
          exact ⟨(progress_evolves committed.progress (filed.settled _ inside)).of_details rfl,vacuous (open?_unmerged sound.root)⟩
        · cases Consolidation.outcome_ok committed.progress with
          | kept _ alone =>
            rw [alone] at chosen
            cases chosen
          | @merged row card merging =>
            obtain ⟨current,grafted⟩ := committed.grafted sound merging
            obtain ⟨there,_⟩ := Table.find?_eq_some.mp current
            obtain rfl := Option.some.inj (merging.target.symm.trans chosen)
            obtain ⟨card',there',relinked⟩ := committed.drafted.target _ chosen
            obtain rfl := drafts.unique listed (Table.find?_eq_some.mp there').1 same'.symm
            have given : ∀ d ∈ card.details, Held rt.t s' (wantedOf home d.id.origin) m'.id := by
              intro d had
              rw [merging.details] at had
              obtain ⟨k,listed,names,leads⟩ := (filed.held _ inside d had).later wellformed advances
              rw [← named]
              exact ⟨k,listed,names,leads.tail grafted.linked⟩
            have copied : c.root.scope.card.Evolves (lost row.spaceId) (fun origin => Held rt.t s' (wantedOf home origin) m'.id) card :=
              (Card.Evolves.refl (filed.settled _ inside)).of_details merging.details
            have taken : row.scope.card.Evolves (lost row.spaceId) (fun origin => Held rt.t s' (wantedOf home origin) m'.id)
                (row.scope.card.taking card) :=
              taking_evolves (filed.settled row there) copied.settled (merging.apart_details filed wellformed sound inside there) given
            exact ⟨taken.of_details relinked.details,vacuous (sound.records _ merging.listed).2⟩
        · exact ⟨(Card.Evolves.refl (filed.settled _ before)).of_details relinked.details,fun _ => by rw [relinked.details]⟩
      exact ⟨evolves.1.of_details details,evolves.2⟩
  · rcases committed.links with same | ⟨row,card,merging⟩
    · exact absurd ((same _).symm.trans linked) old
    · obtain ⟨current,grafted⟩ := committed.grafted sound merging
      obtain ⟨there',_⟩ := Table.find?_eq_some.mp current
      by_cases own : m'.id = c.root.id
      · rw [own,grafted.linked] at linked
        obtain ⟨card',found,relinked⟩ := committed.drafted.target _ merging.target
        have into : n'.scope.card.details = row.scope.card.details ++ card.details := by
          rw [committed.drafted_row (Table.find?_eq_some.mp found).1 there (Option.some.inj linked).symm,relinked.details]
          exact taking_details (merging.apart_details filed wellformed sound inside there')
        intro d' inside'
        rw [committed.drafted_row root member own] at inside'
        change d' ∈ p.root.details at inside'
        rw [merging.root] at inside'
        obtain ⟨d,had,rfl⟩ := List.mem_map.mp inside'
        refine ⟨d,by rw [into]; exact List.mem_append_right _ had,?_⟩
        split
        · exact ⟨rfl,rfl,rfl⟩
        · exact ⟨rfl,rfl,rfl⟩
      · exact absurd (grafted.others _ own ▸ linked) old

/-! ### Whole runs -/

theorem Whole.files {u v : State} {transaction : Transaction} (whole : Whole rt u transaction v) (wellformed : Wellformed rt.t u.store)
    (filed : Filed rt.t home u.store) (meets : transaction.Meets (Homed home))
    (forgotten : ∀ space source, (u.forgotten.find? (space,source)).isSome → lost space source) : Files rt.t home lost u.store v.store := by
  have moves := whole.moves wellformed
  cases transaction with
  | operate op draw =>
    obtain ⟨job,read,rfl⟩ := whole
    obtain ⟨sound,placed,meets⟩ := Operation.sound wellformed read meets
    have step : job.Committing rt draw u (job.commit rt draw u) := job.committing draw u
    generalize job.commit rt draw u = result at step moves ⊢
    cases step with
    | failed e => exact .of_memories filed rfl
    | idle nothing => exact .of_memories filed rfl
    | written writes plain =>
      exact Job.written_files filed wellformed moves.advances (Write.applied rfl) writes sound placed rfl meets forgotten
    | reviewed same ok =>
      subst same
      obtain ⟨p,drafts,committed⟩ := commit_committed sound wellformed.cards ok
      exact committed.files filed wellformed moves.advances sound.unmerged
  | record spaceId sources =>
    subst whole
    exact .of_memories filed rfl
  | command c =>
    obtain ⟨plain,store,ok,rfl⟩ := whole
    exact .of_same filed (command_progresses plain ok wellformed.cards).2.2

/-- Every card is there in a later form. -/
def Grown (u v : State) : Prop :=
  ∀ m ∈ u.store.memories, ∃ m' ∈ v.store.memories, m'.id = m.id ∧ m'.spaceId = m.spaceId ∧
    ∀ d ∈ m.scope.card.details, ∃ d' ∈ m'.scope.card.details, d.Forward (fun source => (v.forgotten.find? (m.spaceId,source)).isSome) d'

theorem Grown.refl (u : State) : Grown u u := fun m member => ⟨m,member,rfl,rfl,fun d inside => ⟨d,inside,.refl _ d⟩⟩

theorem Grown.step {u v x : State} (grown : Grown u v) (moves : Moves t v x)
    (files : Files t home (fun space source => (v.forgotten.find? (space,source)).isSome) v.store x.store) : Grown u x := by
  intro m member
  obtain ⟨m',there,same,space,kept⟩ := grown m member
  obtain ⟨m'',last,same',progress⟩ := moves.advances.progresses.kept m' there
  refine ⟨m'',last,same'.trans same,?_,fun d inside => ?_⟩
  · rcases progress with rfl | rewritten
    · exact space
    · exact rewritten.spaceId.trans space
  · obtain ⟨d',inside',forward⟩ := kept d inside
    rcases files.rows m'' last with ⟨n,listed,named,evolves,_⟩ | ⟨_,_,new⟩
    · obtain rfl := v.store.memories.unique listed there (named.trans same')
      obtain ⟨d'',inside'',forward'⟩ := evolves.kept d' inside'
      rw [space] at forward'
      exact ⟨d'',inside'',(forward.trans forward').mono (fun source => moves.forgotten _)⟩
    · exact absurd same'.symm (new m' there)

theorem Filed.run {u v : State} {ts : List Transaction}
    (run : Run (Guarded (fun _ transaction => Transaction.Meets (Homed home) transaction) (Whole rt)) u ts v)
    (wellformed : Wellformed rt.t u.store) (filed : Filed rt.t home u.store) :
    Wellformed rt.t v.store ∧ Filed rt.t home v.store ∧ Grown u v := by
  refine run.invariant (fun v => Wellformed rt.t v.store ∧ Filed rt.t home v.store ∧ Grown u v) (fun v transaction x held step => ?_)
    ⟨wellformed,filed,.refl u⟩
  obtain ⟨wellformed,filed,grown⟩ := held
  obtain ⟨meets,whole⟩ := step
  have moves := whole.moves wellformed
  have files := whole.files wellformed filed meets (fun _ _ there => there)
  exact ⟨wellformed.advances moves.advances,filed.files wellformed moves.advances files,grown.step moves files⟩

theorem Filed.empty (t : Texts) (home : NoteId → SpaceId × String) : Filed t home (.empty Scope) where
  settled m member := absurd member (Table.not_mem_empty m)
  held m member := absurd member (Table.not_mem_empty m)
  carried m member := absurd member (Table.not_mem_empty m)

theorem morning_homed : Run (Guarded (fun _ e => Homed (fun _ => (1,"owner")) e) (Guarded Steady (World.Step .plain))) .empty morning noon :=
  morning_run.listed (by simp [morning,Homed,likesCoffee,dislikesCoffee,likesLatte,saying,Note.owner,TaskCards.orElse])

theorem evening_homed : Run (Guarded (fun _ e => Homed (fun _ => (1,"owner")) e) (Guarded Steady (World.Step .plain))) noon evening night :=
  evening_run.listed (by simp [evening,Homed,weekendCoffee,saying,Note.owner,TaskCards.orElse])

theorem noon_filed : Wellformed Runtime.plain.t noon.state.store ∧ Filed Runtime.plain.t (fun _ => (1,"owner")) noon.state.store := by
  obtain ⟨ts,whole⟩ := World.Sound.whole (.idle rfl (.empty _)) morning_homed
  obtain ⟨wellformed,filed,_⟩ := Filed.run whole (.empty _) (.empty _ _)
  exact ⟨wellformed,filed⟩

variable {w w' : World} {es : List Event}

/-- In any order of steps no detail is lost, none says anything else than before, and one that
is history, merged, retracted or forgotten is never opened again; the evidence of a detail goes
only when it is forgotten. -/
theorem details_forward (run : Run (Guarded (fun _ e => Homed home e) (Guarded Steady (World.Step rt))) w es w') (idle : w.flights = [])
    (wellformed : Wellformed rt.t w.state.store) (filed : Filed rt.t home w.state.store) : Grown w.state w'.state := by
  obtain ⟨ts,whole⟩ := World.Sound.whole (.idle idle wellformed) run
  exact (Filed.run whole wellformed filed).2.2

theorem details_forward_evening : Grown noon.state night.state :=
  details_forward evening_homed morning_idle noon_filed.1 noon_filed.2

/-- In any order of steps every detail of a card has an id of its own, and two cards that are
not merged have no detail in common. -/
theorem details_apart (run : Run (Guarded (fun _ e => Homed home e) (Guarded Steady (World.Step rt))) w es w') (idle : w.flights = [])
    (wellformed : Wellformed rt.t w.state.store) (filed : Filed rt.t home w.state.store) :
    ∀ m ∈ w'.state.store.memories, m.scope.card.Distinct ∧ ∀ n ∈ w'.state.store.memories,
      m.scope.card.mergedInto = none → n.scope.card.mergedInto = none →
        ∀ d ∈ m.scope.card.details, ∀ e ∈ n.scope.card.details, d.id = e.id → m = n := by
  obtain ⟨ts,whole⟩ := World.Sound.whole (.idle idle wellformed) run
  obtain ⟨wellformed,filed,_⟩ := Filed.run whole wellformed filed
  refine fun m member => ⟨(filed.settled m member).distinct,fun n there unmerged unmerged' d inside e inside' same => ?_⟩
  exact filed.apart wellformed member there ((link_mem member).trans unmerged) ((link_mem there).trans unmerged') inside inside' same

theorem details_apart_morning :
    (∃ m ∈ noon.state.store.memories, ∃ n ∈ noon.state.store.memories, m.id ≠ n.id ∧ m.scope.card.mergedInto = none ∧
      n.scope.card.mergedInto = none ∧ m.scope.card.details ≠ [] ∧ n.scope.card.details ≠ []) ∧
    ∀ m ∈ noon.state.store.memories, m.scope.card.Distinct ∧ ∀ n ∈ noon.state.store.memories,
      m.scope.card.mergedInto = none → n.scope.card.mergedInto = none →
        ∀ d ∈ m.scope.card.details, ∀ e ∈ n.scope.card.details, d.id = e.id → m = n :=
  ⟨by decide +kernel,details_apart morning_homed rfl (.empty _) (.empty _ _)⟩

/-- In any order of steps, when a review is committed then each detail of its card that can be
reviewed again cites a source that is not forgotten. -/
theorem reviewed_evidenced (run : Run (Guarded (fun _ e => Homed home e) (Guarded Steady (World.Step rt))) w es w') (idle : w.flights = [])
    (wellformed : Wellformed rt.t w.state.store) (filed : Filed rt.t home w.state.store) {i : Nat}
    (ready : w'.flights[i]? = some (.ready (.consolidate c))) (covered : c.Covered) {intact : Bool} {store : Store Scope}
    (ok : commit rt c intact now w'.state = .ok store) :
    ∀ m ∈ store.memories, m.id = c.root.id → ∀ d ∈ m.scope.card.details, d.reviewable →
      ∃ source ∈ d.sources, w'.state.forgotten.find? (c.root.spaceId,source.id) = none := by
  have sound : w'.Sound rt (Homed home) := World.Sound.run (.idle idle wellformed) run
  obtain ⟨ts,whole⟩ := World.Sound.whole (.idle idle wellformed) run
  obtain ⟨_,filed,_⟩ := Filed.run whole wellformed filed
  obtain ⟨⟨held,_⟩,_⟩ := sound.at ready
  obtain ⟨_,_,_,remembered,_⟩ := commit_ok ok
  obtain ⟨p,drafts,committed⟩ := commit_committed held sound.wellformed.cards ok
  obtain ⟨root,_⟩ := Table.find?_eq_some.mp committed.drafted.root
  obtain ⟨inside,_⟩ := Table.find?_eq_some.mp (committed.current _ root)
  have evidenced := progress_evidenced committed.progress (filed.settled _ inside) covered
  intro m member same d there reviewable
  rw [committed.drafted_row root member same] at there
  obtain ⟨source,cited,read⟩ := evidenced d there reviewable
  obtain ⟨e,found⟩ := Option.isSome_iff_exists.mp read
  obtain ⟨available,named⟩ := Table.find?_eq_some.mp found
  exact ⟨source,cited,named ▸ remembered e available⟩

def dusk : World := noon.after (evening.take 6)

def World.reviewing (w : World) (i : Nat) : Option Consolidation :=
  match w.flights[i]? with
  | some (.ready (.consolidate c)) => some c
  | _ => none

theorem World.reviewing_ready {c : Consolidation} {i : Nat} (found : w.reviewing i = some c) :
    w.flights[i]? = some (.ready (.consolidate c)) := by
  unfold World.reviewing at found
  split at found
  · rename_i there
    rw [there,Option.some.inj found]
  · cases found

theorem reviewed_evidenced_dusk : ∃ c store, commit .plain c true 300 dusk.state = .ok store ∧ c.root.id = 10 ∧
    ∀ m ∈ store.memories, m.id = c.root.id → ∀ d ∈ m.scope.card.details, d.reviewable →
      ∃ source ∈ d.sources, dusk.state.forgotten.find? (c.root.spaceId,source.id) = none := by
  have passes : (dusk.reviewing 0).any (fun c =>
      c.root.id = 10 && decide c.Covered && (commit .plain c true 300 dusk.state).toOption.isSome) := by decide +kernel
  obtain ⟨c,ready,checked⟩ := (Option.any_eq_true _ _).mp passes
  simp only [Bool.and_eq_true,decide_eq_true_eq] at checked
  obtain ⟨⟨root,covered⟩,written⟩ := checked
  obtain ⟨store,found⟩ := Option.isSome_iff_exists.mp written
  have ok := ok_of_toOption found
  have run : Run (Guarded Steady (World.Step .plain)) noon (evening.take 6) dusk := World.after_run (by decide +kernel) (by simp [evening,Steady])
  exact ⟨c,store,ok,root,reviewed_evidenced
    (run.listed (by simp [evening,Homed,weekendCoffee,saying,Note.owner,TaskCards.orElse]))
    morning_idle noon_filed.1 noon_filed.2 (World.reviewing_ready ready) covered ok⟩

theorem Detail.SaidIn.trans {card card' : Card} (said : d.SaidIn card) (carried : ∀ e ∈ card.details, e.SaidIn card') : d.SaidIn card' := by
  obtain ⟨e,there,same,attitude,condition⟩ := said
  obtain ⟨e',inside,same',attitude',condition'⟩ := carried e there
  exact ⟨e',inside,same'.trans same,attitude'.trans attitude,condition'.trans condition⟩

/-- In any order of steps what a card says is also said, under the same ids, by the card that
its chain of merges ends at. -/
theorem merged_details_said (run : Run (Guarded (fun _ e => Homed home e) (Guarded Steady (World.Step rt))) w es w') (idle : w.flights = [])
    (wellformed : Wellformed rt.t w.state.store) (filed : Filed rt.t home w.state.store) :
    ∀ m ∈ w'.state.store.memories, ∃ n ∈ w'.state.store.memories, Ends (link w'.state.store) m.id n.id ∧
      ∀ d ∈ m.scope.card.details, d.SaidIn n.scope.card := by
  obtain ⟨ts,whole⟩ := World.Sound.whole (.idle idle wellformed) run
  obtain ⟨wellformed,filed,_⟩ := Filed.run whole wellformed filed
  intro m member
  obtain ⟨id,leads,root⟩ := wellformed.ended m.id
  have along : ∀ id, Leads (link w'.state.store) m.id id → ∃ n ∈ w'.state.store.memories, n.id = id ∧
      ∀ d ∈ m.scope.card.details, d.SaidIn n.scope.card := by
    intro id leads
    induction leads with
    | refl => exact ⟨m,member,rfl,fun d inside => ⟨d,inside,rfl,rfl,rfl⟩⟩
    | tail _ step ih =>
      obtain ⟨n,there,rfl,said⟩ := ih
      obtain ⟨next,inside,rfl,_⟩ := wellformed.linked n there _ step
      exact ⟨next,inside,rfl,fun d had => (said d had).trans (filed.carried n there next inside step)⟩
  obtain ⟨n,there,rfl,said⟩ := along id leads
  exact ⟨n,there,⟨leads,root⟩,said⟩

theorem merged_details_said_evening :
    (∃ m ∈ night.state.store.memories, m.id = 10 ∧ m.scope.card.mergedInto = some 12 ∧ m.scope.card.details ≠ []) ∧
    ∀ m ∈ night.state.store.memories, ∃ n ∈ night.state.store.memories, Ends (link night.state.store) m.id n.id ∧
      ∀ d ∈ m.scope.card.details, d.SaidIn n.scope.card :=
  ⟨by decide +kernel,merged_details_said evening_homed morning_idle noon_filed.1 noon_filed.2⟩

end

end Suixinji.Preferences
