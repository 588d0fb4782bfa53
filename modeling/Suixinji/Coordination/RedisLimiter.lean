import Suixinji.Coordination.Limiters

/-! The limiter of the Lua scripts refines the same specification, where no key is used both for a
window and for slots. -/
namespace Suixinji.Coordination.RateLimit

variable {κ : Type} [DecidableEq κ]

def redisView (db : Keyspace κ) (now : Int) (key : κ) : Held :=
  match live db now key with
  | some ⟨.counter value,some when_⟩ => ⟨some (when_,value),[]⟩
  | some ⟨.sortedSet members,_⟩ => ⟨none,members.liveAt now⟩
  | _ => {}

variable {use : Use κ} {db : Keyspace κ} {key : κ} {now later : Int} {slotted : κ → Bool}

theorem live_update (e : Option Entry) : live (Function.update db key e) now key = e.filter (fun e => e.expires.all (now < ·)) := by
  rw [live,Function.update_self]

theorem live_update_alive {e : Entry} (alive : e.expires.all (now < ·) = true) :
    live (Function.update db key (some e)) now key = some e := by
  rw [live_update]
  exact Option.filter_some_pos alive

theorem live_update_of_ne {other : κ} (apart : key ≠ other) (e : Option Entry) :
    live (Function.update db other e) now key = live db now key := by
  rw [live,Function.update_of_ne apart,live]

omit [DecidableEq κ] in
theorem live_later (le : now ≤ later) : live db later key = (live db now key).filter (fun e => e.expires.all (later < ·)) := by
  unfold live
  cases db key with
  | none => rfl
  | some e =>
    cases found : e.expires with
    | none => simp [Option.filter,found]
    | some when_ =>
      by_cases elapsed : later < when_
      · have first : now < when_ := by omega
        simp [Option.filter,found,elapsed,first]
      · by_cases first : now < when_ <;> simp [Option.filter,found,elapsed,first]

/-- An entry that a key can have at a time. -/
def Entry.Sound (slotted : Bool) (latest : Int) (e : Entry) : Prop :=
  ∃ when_, e.expires = some when_ ∧
    match e.value with
    | .counter value => slotted = false ∧ 1 ≤ value
    | .sortedSet members => slotted = true ∧ when_ ≤ latest ∧ ∀ x ∈ members, x.2 ≤ when_

def Sound (use : Use κ) (slotted : κ → Bool) (now : Int) (db : Keyspace κ) : Prop :=
  ∀ key e, db key = some e → e.Sound (slotted key) (now + use.period key)

omit [DecidableEq κ] in
theorem live_counter (sound : Sound use slotted now db) (window : slotted key = false) :
    live db now key = none ∨ ∃ value when_, live db now key = some ⟨.counter value,some when_⟩ ∧ 1 ≤ value ∧ now < when_ := by
  cases found : live db now key with
  | none => exact .inl rfl
  | some e =>
    obtain ⟨there,alive⟩ := Option.filter_eq_some_iff.mp found
    obtain ⟨value,expires⟩ := e
    obtain ⟨when_,rfl,kind⟩ := sound key _ there
    cases value with
    | counter value => exact .inr ⟨value,when_,rfl,kind.2,by simpa using alive⟩
    | sortedSet members => exact absurd (window.symm.trans kind.1) (by decide)

omit [DecidableEq κ] in
theorem live_sortedSet (sound : Sound use slotted now db) (slots : slotted key = true) :
    live db now key = none ∨ ∃ members when_, live db now key = some ⟨.sortedSet members,some when_⟩ ∧ now < when_ ∧
      when_ ≤ now + use.period key ∧ ∀ x ∈ members, x.2 ≤ when_ := by
  cases found : live db now key with
  | none => exact .inl rfl
  | some e =>
    obtain ⟨there,alive⟩ := Option.filter_eq_some_iff.mp found
    obtain ⟨value,expires⟩ := e
    obtain ⟨when_,rfl,kind⟩ := sound key _ there
    cases value with
    | counter value => exact absurd (slots.symm.trans kind.1) (by decide)
    | sortedSet members => exact .inr ⟨members,when_,rfl,by simpa using alive,kind.2⟩

theorem Redis.allow_eq (sound : Sound use slotted now db) (window : slotted key = false) {limit period : Int} (cost : Int)
    (some_room : 1 ≤ limit) (positive : 1 ≤ period) :
    Redis.allow db now key limit period cost =
      let r := (redisView db now key).running period now
      (.limited ⟨decide (r.2 + max 1 cost ≤ limit),r.2 + max 1 cost,r.1 - now⟩,
        Function.update db key (some ⟨.counter (r.2 + max 1 cost),some r.1⟩)) := by
  have limit_eq : max 1 limit = limit := max_eq_right some_room
  have period_eq : max 1 period = period := max_eq_right positive
  have open_ : now < now + period := by omega
  unfold Redis.allow fixedWindow redisView
  rw [limit_eq,period_eq]
  generalize max 1 cost = c
  rcases live_counter sound window with gone | ⟨value,when_,here,counted,running⟩
  · rw [gone]
    have fresh (expires : Option Int) (alive : expires.all (now < ·) = true) :
        live (Function.update db key (some ⟨.counter c,expires⟩)) now key = some ⟨.counter c,expires⟩ := live_update_alive alive
    have wait : max 0 (now + period - now) = now + period - now := max_eq_right (by omega)
    simp only [incrBy,gone,Option.bind_eq_bind,Option.bind_some,if_true,pExpire,fresh none rfl,Function.update_idem,pTtl,
      fresh (some (now + period)) (by simpa using open_),Held.running,Option.getD_none,Int.zero_add,wait]
  · rw [here]
    have grown : ¬value + c = c := by omega
    have alive : live (Function.update db key (some ⟨.counter (value + c),some when_⟩)) now key =
        some ⟨.counter (value + c),some when_⟩ := live_update_alive (by simpa using running)
    have wait : max 0 (when_ - now) = when_ - now := max_eq_right (by omega)
    simp only [incrBy,here,Option.bind_eq_bind,Option.bind_some,if_neg grown,pTtl,alive,Held.running,Option.getD_some,wait]
    rfl

theorem live_setMembers (slots : Slots) : live (setMembers db now key slots) now key =
    if slots = [] then none else some ⟨.sortedSet slots,(live db now key).bind Entry.expires⟩ := by
  unfold setMembers
  by_cases nothing : slots = []
  · rw [if_pos nothing,if_pos nothing,live_update]
    rfl
  · rw [if_neg nothing,if_neg nothing]
    refine live_update_alive ?_
    cases found : live db now key with
    | none => rfl
    | some e => exact (Option.filter_eq_some_iff.mp found).2

theorem members_setMembers (slots : Slots) : members (setMembers db now key slots) now key = some slots := by
  unfold members
  rw [live_setMembers]
  by_cases nothing : slots = []
  · rw [if_pos nothing,nothing]
  · rw [if_neg nothing]

theorem pExpire_setMembers {slots : Slots} (some_slot : slots ≠ []) (ms : Int) :
    pExpire (setMembers db now key slots) now key ms = Function.update db key (some ⟨.sortedSet slots,some (now + ms)⟩) := by
  unfold pExpire
  rw [live_setMembers,if_neg some_slot]
  dsimp only
  unfold setMembers
  rw [if_neg some_slot,Function.update_idem]

omit [DecidableEq κ] in
theorem members_eq (sound : Sound use slotted now db) (slots : slotted key = true) :
    ∃ held, members db now key = some held ∧ redisView db now key = ⟨none,held.liveAt now⟩ := by
  unfold members redisView
  rcases live_sortedSet sound slots with gone | ⟨held,when_,here,_⟩
  · rw [gone]
    exact ⟨[],rfl,rfl⟩
  · rw [here]
    exact ⟨held,rfl,rfl⟩

theorem put_ne_nil (slots : Slots) (token : Token) (expires : Int) : slots.put token expires ≠ [] := by
  unfold Slots.put
  exact List.append_ne_nil_of_right_ne_nil _ (List.cons_ne_nil _ _)

theorem Redis.acquireSlot_eq (sound : Sound use slotted now db) (slots : slotted key = true) {limit ttl : Int} (token : Token)
    (some_room : 1 ≤ limit) (positive : 1 ≤ ttl) :
    Redis.acquireSlot db now key limit ttl token =
      let held := (redisView db now key).slots
      if limit ≤ held.length then (.slot none,setMembers db now key held)
      else (.slot (some token),Function.update db key (some ⟨.sortedSet (held.put token (now + ttl)),some (now + ttl)⟩)) := by
  have limit_eq : max 1 limit = limit := max_eq_right some_room
  have ttl_eq : max 1 ttl = ttl := max_eq_right positive
  obtain ⟨held,there,view⟩ := members_eq sound slots
  unfold Redis.acquireSlot acquireScript
  rw [limit_eq,ttl_eq,there,view]
  simp only [Option.bind_eq_bind,Option.bind_some,members_setMembers]
  by_cases full : limit ≤ (held.liveAt now).length
  · rw [if_pos full,if_pos full]
    rfl
  · have updated (slots' : Slots) (e : Option Entry) : Function.update (setMembers db now key slots') key e = Function.update db key e := by
      unfold setMembers
      split
      · exact Function.update_idem _ _ _
      · exact Function.update_idem _ _ _
    rw [if_neg full,if_neg full,pExpire_setMembers (put_ne_nil _ _ _),updated]
    rfl

theorem Redis.releaseSlot_eq {held : Slots} (there : members db now key = some held) (token : Token) :
    Redis.releaseSlot db now key token = (.released,setMembers db now key (held.drop token)) := by
  unfold Redis.releaseSlot
  rw [there]

theorem view_setMembers (slots : Slots) : redisView (setMembers db now key slots) now key = ⟨none,slots.liveAt now⟩ := by
  unfold redisView
  rw [live_setMembers]
  by_cases nothing : slots = []
  · rw [if_pos nothing,nothing]
    rfl
  · rw [if_neg nothing]

theorem view_counter (sound : Sound use slotted now db) (window : slotted key = false) {value when_ : Int} (running : now < when_) :
    redisView (Function.update db key (some ⟨.counter value,some when_⟩)) now key =
      {redisView db now key with window := some (when_,value)} := by
  have empty : (redisView db now key).slots = [] := by
    unfold redisView
    rcases live_counter sound window with gone | ⟨value,when_,here,_,_⟩
    · rw [gone]
    · rw [here]
  rw [redisView,live_update_alive (by simpa using running)]
  exact congrArg (Held.mk _) empty.symm

theorem view_sortedSet {slots : Slots} {when_ : Int} (running : now < when_) :
    redisView (Function.update db key (some ⟨.sortedSet slots,some when_⟩)) now key = ⟨none,slots.liveAt now⟩ := by
  rw [redisView,live_update_alive (by simpa using running)]

theorem view_update_of_ne {other : κ} (apart : key ≠ other) (e : Option Entry) :
    redisView (Function.update db other e) now key = redisView db now key := by
  unfold redisView
  rw [live_update_of_ne apart]

theorem view_setMembers_of_ne {other : κ} (apart : key ≠ other) (slots : Slots) :
    redisView (setMembers db now other slots) now key = redisView db now key := by
  unfold setMembers
  split
  · exact view_update_of_ne apart _
  · exact view_update_of_ne apart _

theorem Sound.update (sound : Sound use slotted now db) {e : Entry} (entry : e.Sound (slotted key) (now + use.period key)) :
    Sound use slotted now (Function.update db key (some e)) := by
  intro other e' there
  by_cases same : other = key
  · subst same
    rw [Function.update_self] at there
    obtain rfl := Option.some.inj there
    exact entry
  · rw [Function.update_of_ne same] at there
    exact sound other e' there

theorem Sound.setMembers (sound : Sound use slotted now db) (slots : slotted key = true) {held kept : Slots}
    (there : members db now key = some held) (fewer : ∀ x ∈ kept, x ∈ held) : Sound use slotted now (setMembers db now key kept) := by
  unfold RateLimit.setMembers
  split
  · intro other e found
    by_cases same : other = key
    · subst same
      rw [Function.update_self] at found
      cases found
    · rw [Function.update_of_ne same] at found
      exact sound other e found
  · rename_i some_kept
    rcases live_sortedSet sound slots with gone | ⟨held',when_,here,_,bound,within⟩
    · unfold members at there
      rw [gone] at there
      obtain rfl := Option.some.inj there
      obtain ⟨x,inside⟩ := List.exists_mem_of_ne_nil _ some_kept
      exact absurd (fewer x inside) List.not_mem_nil
    · unfold members at there
      rw [here] at there ⊢
      obtain rfl := Option.some.inj there
      exact sound.update ⟨when_,rfl,slots,bound,fun x inside => within x (fewer x inside)⟩

theorem Sound.allow (sound : Sound use slotted now db) (window : slotted key = false) (cost period : Int) :
    Sound use slotted now (Function.update db key
      (some ⟨.counter (((redisView db now key).running period now).2 + max 1 cost),some ((redisView db now key).running period now).1⟩)) := by
  refine sound.update ⟨_,rfl,window,?_⟩
  have counted : 0 ≤ ((redisView db now key).running period now).2 := by
    unfold redisView
    rcases live_counter sound window with gone | ⟨value,when_,here,some_one,_⟩
    · rw [gone]
      exact Int.le_refl 0
    · rw [here]
      exact Int.le_trans (by decide) some_one
  have cost_pos : 1 ≤ max 1 cost := le_max_left 1 cost
  omega

theorem Sound.acquire (sound : Sound use slotted now db) (slots : slotted key = true) (token : Token) :
    Sound use slotted now (Function.update db key (some ⟨.sortedSet ((redisView db now key).slots.put token (now + use.period key)),
      some (now + use.period key)⟩)) := by
  refine sound.update ⟨_,rfl,slots,Int.le_refl _,?_⟩
  intro x inside
  rcases List.mem_append.mp inside with old | new
  · have old := (List.mem_filter.mp old).1
    unfold redisView at old
    rcases live_sortedSet sound slots with gone | ⟨held,when_,here,_,bound,within⟩
    · rw [gone] at old
      exact absurd old List.not_mem_nil
    · rw [here] at old
      exact (within x (List.mem_filter.mp old).1).trans bound
  · rw [List.mem_singleton.mp new]

omit [DecidableEq κ] in
theorem view_later (sound : Sound use slotted now db) (le : now ≤ later) (key : κ) :
    redisView db later key = (redisView db now key).advance later := by
  unfold redisView Held.advance
  rw [live_later le]
  cases kind : slotted key with
  | false =>
    rcases live_counter sound kind with gone | ⟨value,when_,here,_,_⟩
    · rw [gone]
      rfl
    · rw [here]
      by_cases elapsed : later < when_
      · rw [Option.filter_some_pos (by simpa using elapsed)]
        exact congrArg (Held.mk · []) (Option.filter_some_pos (by simpa using elapsed)).symm
      · rw [Option.filter_some_neg (by simpa using elapsed)]
        exact congrArg (Held.mk · []) (Option.filter_some_neg (by simpa using elapsed)).symm
  | true =>
    rcases live_sortedSet sound kind with gone | ⟨held,when_,here,_,_,within⟩
    · rw [gone]
      rfl
    · rw [here]
      by_cases elapsed : later < when_
      · rw [Option.filter_some_pos (by simpa using elapsed)]
        exact congrArg (Held.mk none) (Slots.liveAt_liveAt held le).symm
      · rw [Option.filter_some_neg (by simpa using elapsed)]
        refine congrArg (Held.mk none) ?_
        rw [Slots.liveAt_liveAt held le]
        symm
        apply List.filter_eq_nil_iff.mpr
        intro x inside
        have past := within x inside
        rw [decide_eq_true_iff]
        omega

theorem redis_refines (limits : ∀ key, 1 ≤ use.limit key) (periods : ∀ key, 1 ≤ use.period key) (slotted : κ → Bool) :
    Refines use (fun e => e.call.onSlots = slotted e.call.key) (redisStep use) (fun now db => Sound use slotted now db) redisView where
  waits db now later sound le key e there := by
    obtain ⟨when_,expires,kind⟩ := sound key e there
    refine ⟨when_,expires,?_⟩
    revert kind
    cases e.value with
    | counter value => exact id
    | sortedSet held => exact fun kind => ⟨kind.1,kind.2.1.trans (by omega),kind.2.2⟩
  keeps db e sound legal := by
    obtain ⟨now,call⟩ := e
    change Sound use slotted now db at sound
    cases call with
    | allow key cost =>
      have kind : slotted key = false := legal.symm
      change Sound use slotted now (Redis.allow db now key _ _ cost).2
      rw [Redis.allow_eq sound kind cost (limits key) (periods key)]
      exact sound.allow kind cost _
    | acquireSlot key token =>
      have kind : slotted key = true := legal.symm
      obtain ⟨held,there,view⟩ := members_eq sound kind
      change Sound use slotted now (Redis.acquireSlot db now key _ _ token).2
      rw [Redis.acquireSlot_eq sound kind token (limits key) (periods key)]
      dsimp only
      split
      · rw [view]
        exact sound.setMembers kind there (fun x inside => (List.mem_filter.mp inside).1)
      · exact sound.acquire kind token
    | releaseSlot key token =>
      have kind : slotted key = true := legal.symm
      obtain ⟨held,there,view⟩ := members_eq sound kind
      change Sound use slotted now (Redis.releaseSlot db now key token).2
      rw [Redis.releaseSlot_eq there]
      exact sound.setMembers kind there (fun x inside => (List.mem_filter.mp inside).1)
  answer db e sound legal := by
    obtain ⟨now,call⟩ := e
    change Sound use slotted now db at sound
    cases call with
    | allow key cost =>
      exact congrArg Prod.fst (Redis.allow_eq sound (show slotted key = false from legal.symm) cost (limits key) (periods key))
    | acquireSlot key token =>
      have kind : slotted key = true := legal.symm
      change (Redis.acquireSlot db now key _ _ token).1 = (Held.step _ _ _ _ (.acquireSlot key token)).1
      rw [Redis.acquireSlot_eq sound kind token (limits key) (periods key)]
      unfold Held.step
      dsimp only
      split
      · rename_i full
        rw [if_pos (by exact full)]
      · rename_i room
        rw [if_neg (by exact room)]
    | releaseSlot key token =>
      obtain ⟨held,there,_⟩ := members_eq sound (show slotted key = true from legal.symm)
      exact congrArg Prod.fst (Redis.releaseSlot_eq there token)
  moves db e sound legal := by
    obtain ⟨now,call⟩ := e
    change Sound use slotted now db at sound
    cases call with
    | allow key cost =>
      have kind : slotted key = false := legal.symm
      have open_ : now < ((redisView db now key).running (use.period key) now).1 := by
        rw [view_later sound (Int.le_refl now) key]
        exact Held.lt_running (periods key)
      change redisView (Redis.allow db now key _ _ cost).2 now key = (Held.step (redisView db now key) _ _ _ (.allow key cost)).2
      rw [Redis.allow_eq sound kind cost (limits key) (periods key)]
      exact view_counter sound kind open_
    | acquireSlot key token =>
      have kind : slotted key = true := legal.symm
      have fresh := periods key
      obtain ⟨held,_,view⟩ := members_eq sound kind
      change redisView (Redis.acquireSlot db now key _ _ token).2 now key =
        (Held.step (redisView db now key) _ _ now (.acquireSlot key token)).2
      rw [Redis.acquireSlot_eq sound kind token (limits key) (periods key),view]
      unfold Held.step
      dsimp only
      split
      · rename_i full
        rw [if_pos (by exact full),view_setMembers,Slots.liveAt_liveAt _ (Int.le_refl now)]
      · rename_i room
        have alive : now < now + use.period key := by omega
        rw [if_neg (by exact room),view_sortedSet alive,Slots.put_liveAt alive,Slots.liveAt_liveAt _ (Int.le_refl now)]
        rfl
    | releaseSlot key token =>
      obtain ⟨held,there,view⟩ := members_eq sound (show slotted key = true from legal.symm)
      change redisView (Redis.releaseSlot db now key token).2 now key = (Held.step (redisView db now key) _ _ now (.releaseSlot key token)).2
      rw [Redis.releaseSlot_eq there,view,view_setMembers,Slots.liveAt_drop]
      rfl
  others db e sound legal key other := by
    obtain ⟨now,call⟩ := e
    change Sound use slotted now db at sound
    cases call with
    | allow key' cost =>
      change redisView (Redis.allow db now key' _ _ cost).2 now key = _
      rw [Redis.allow_eq sound (show slotted key' = false from legal.symm) cost (limits key') (periods key')]
      exact view_update_of_ne other _
    | acquireSlot key' token =>
      change redisView (Redis.acquireSlot db now key' _ _ token).2 now key = _
      rw [Redis.acquireSlot_eq sound (show slotted key' = true from legal.symm) token (limits key') (periods key')]
      dsimp only
      split
      · exact view_setMembers_of_ne other _
      · exact view_update_of_ne other _
    | releaseSlot key' token =>
      obtain ⟨held,there,_⟩ := members_eq sound (show slotted key' = true from legal.symm)
      change redisView (Redis.releaseSlot db now key' token).2 now key = _
      rw [Redis.releaseSlot_eq there]
      exact view_setMembers_of_ne other _
  later db now later sound le key := view_later sound le key

end Suixinji.Coordination.RateLimit
