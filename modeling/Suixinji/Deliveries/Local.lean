import Suixinji.Deliveries.Store

/-! The delivery store of the local back end (runtime/delivery_store.py): one file,
read and written back under one hold of its lock, so each call is atomic. -/
namespace Suixinji.Deliveries.Local
open Suixinji.Relational Suixinji.Deliveries
open Suixinji.Dispatch (Time seconds)

structure DeliveryRecord where
  deliveryKey : String
  deliveryType : String
  spaceId : String
  messageId : Option String
  status : DeliveryStatus
  createdAt : Time
  updatedAt : Time
  reservedAt : Option Time
  leaseExpiresAt : Option Time
  attemptCount : Nat
  error : Option String
  deriving DecidableEq

abbrev Records := Table DeliveryRecord.deliveryKey

def isReservationExpired (record : DeliveryRecord) (now : Time) : Bool :=
  record.status = .reserved && record.leaseExpiresAt.all (· ≤ now)

def refuses (settings : Settings) (old : DeliveryRecord) (now : Time) : Bool :=
  old.status.settled || (old.status = .reserved && !isReservationExpired old now) ||
    settings.deliveryMaxAttempts ≤ old.attemptCount

def reserveDelivery (settings : Settings) (items : Records) (deliveryKey deliveryType spaceId : String)
    (messageId : Option String) (now : Time) : Option Records :=
  let old := items.find? deliveryKey
  if old.any (refuses settings · now) then none
  else some (items.upsert {
    deliveryKey, deliveryType, spaceId, messageId
    status := .reserved
    createdAt := (old.map DeliveryRecord.createdAt).getD now
    updatedAt := now
    reservedAt := some now
    leaseExpiresAt := some (now + seconds settings.deliveryReservationTtlSeconds)
    attemptCount := (old.map DeliveryRecord.attemptCount).getD 0 + 1
    error := none})

def updateStatus (items : Records) (deliveryKey : String) (status : DeliveryStatus) (error : Option String) (now : Time) :
    Records :=
  match items.find? deliveryKey with
  | none => items
  | some raw => items.upsert {raw with status,updatedAt := now,error}

def markSent (items : Records) (deliveryKey : String) (now : Time) : Records :=
  updateStatus items deliveryKey .sent none now

def markFailed (items : Records) (deliveryKey error : String) (now : Time) : Records :=
  updateStatus items deliveryKey .failed (some error) now

def markUnknown (items : Records) (deliveryKey error : String) (now : Time) : Records :=
  updateStatus items deliveryKey .unknown (some error) now

def recoverStaleReservedDeliveries (items : Records) (now : Time) : Records :=
  items.updateWhere (isReservationExpired · now)
    (fun record => {record with status := .failed,updatedAt := now,error := some "reservation lease expired"})

def autoSummaryKey (spaceId rangeKey date : String) : String :=
  "auto_summary:" ++ spaceId ++ ":" ++ rangeKey ++ ":" ++ date

/-- The delivery is done, as far as the store knows. -/
def Sent (items : Records) (deliveryKey : String) : Prop := ∃ r, items.find? deliveryKey = some r ∧ r.status = .sent

theorem find?_updateStatus (items : Records) (deliveryKey : String) (status : DeliveryStatus) (error : Option String)
    (now : Time) (key : String) :
    (updateStatus items deliveryKey status error now).find? key =
      if key = deliveryKey then (items.find? key).map (fun raw => {raw with status,updatedAt := now,error})
      else items.find? key := by
  unfold updateStatus
  split
  · rename_i missing
    split
    · rename_i same
      rw [same,missing]
      rfl
    · rfl
  · rename_i raw found
    obtain rfl := (Table.find?_eq_some.mp found).2
    rw [Table.find?_upsert]
    split
    · rename_i same
      rw [same,found]
      rfl
    · rfl

theorem isSome_updateStatus {items : Records} {deliveryKey key : String} {status : DeliveryStatus} {error : Option String}
    {now : Time} (there : (items.find? key).isSome) : ((updateStatus items deliveryKey status error now).find? key).isSome := by
  rw [find?_updateStatus]
  split
  · rwa [Option.isSome_map]
  · exact there

theorem isSome_recover {items : Records} {key : String} {now : Time} (there : (items.find? key).isSome) :
    ((recoverStaleReservedDeliveries items now).find? key).isSome := by
  unfold recoverStaleReservedDeliveries
  rwa [Table.find?_updateWhere,Option.isSome_map]

theorem sent_markSent {items : Records} {deliveryKey : String} {now : Time} (there : (items.find? deliveryKey).isSome) :
    Sent (markSent items deliveryKey now) deliveryKey := by
  obtain ⟨r,found⟩ := Option.isSome_iff_exists.mp there
  unfold Sent markSent
  rw [find?_updateStatus,if_pos rfl,found]
  exact ⟨_,rfl,rfl⟩

theorem sent_updateStatus {items : Records} {deliveryKey key : String} {status : DeliveryStatus} {error : Option String}
    {now : Time} (sent : Sent items key) (apart : key = deliveryKey → status = .sent) :
    Sent (updateStatus items deliveryKey status error now) key := by
  obtain ⟨r,found,done⟩ := sent
  unfold Sent
  rw [find?_updateStatus,found]
  split
  · rename_i same
    exact ⟨_,rfl,apart same⟩
  · exact ⟨r,rfl,done⟩

theorem sent_recover {items : Records} {key : String} {now : Time} (sent : Sent items key) :
    Sent (recoverStaleReservedDeliveries items now) key := by
  obtain ⟨r,found,done⟩ := sent
  refine ⟨r,?_,done⟩
  unfold recoverStaleReservedDeliveries
  rw [Table.find?_updateWhere,found,Option.map_some,if_neg]
  simp [isReservationExpired,done]

theorem reserveDelivery_ok {settings : Settings} {items items' : Records} {deliveryKey deliveryType spaceId : String}
    {messageId : Option String} {now : Time}
    (ok : reserveDelivery settings items deliveryKey deliveryType spaceId messageId now = some items') :
    ¬Sent items deliveryKey ∧ (items'.find? deliveryKey).isSome ∧
      ∀ key, key ≠ deliveryKey → items'.find? key = items.find? key := by
  simp only [reserveDelivery] at ok
  split at ok
  · cases ok
  · rename_i free
    cases ok
    refine ⟨?_,?_,fun key apart => ?_⟩
    · rintro ⟨r,found,done⟩
      refine free ?_
      rw [found]
      simp [refuses,done,DeliveryStatus.settled]
    · rw [Table.find?_upsert,if_pos rfl]
      rfl
    · rw [Table.find?_upsert,if_neg apart]

theorem toList_autoSummaryKey (space range date : String) : (autoSummaryKey space range date).toList =
    "auto_summary:".toList ++ space.toList ++ ':' :: range.toList ++ ':' :: date.toList := by
  change ("auto_summary:" ++ space ++ ":" ++ range ++ ":" ++ date).toList = _
  simp only [String.toList_append,List.append_assoc]
  rfl

theorem space_of_autoSummaryKey {spaceId spaceId' rangeKey rangeKey' date date' : String}
    (range : ':' ∉ rangeKey.toList) (range' : ':' ∉ rangeKey'.toList) (day : ':' ∉ date.toList) (day' : ':' ∉ date'.toList)
    (same : autoSummaryKey spaceId rangeKey date = autoSummaryKey spaceId' rangeKey' date') : spaceId = spaceId' := by
  have split : ∀ {a a' b b' : List Char}, ':' ∉ b → ':' ∉ b' → a ++ ':' :: b = a' ++ ':' :: b' → a = a' := by
    intro a a' b b' plain plain' joined
    rcases List.append_eq_append_iff.mp joined with ⟨c,left,right⟩ | ⟨c,left,right⟩
    · cases c with
      | nil => simpa using left.symm
      | cons x c =>
        cases right
        exact absurd (List.mem_append_right c List.mem_cons_self) plain
    · cases c with
      | nil => simpa using left
      | cons x c =>
        cases right
        exact absurd (List.mem_append_right c List.mem_cons_self) plain'
  have lists : "auto_summary:".toList ++ spaceId.toList ++ ':' :: rangeKey.toList ++ ':' :: date.toList =
      "auto_summary:".toList ++ spaceId'.toList ++ ':' :: rangeKey'.toList ++ ':' :: date'.toList :=
    (toList_autoSummaryKey ..).symm.trans ((congrArg String.toList same).trans (toList_autoSummaryKey ..))
  have spaces := List.append_cancel_left (split range range' (split day day' lists))
  exact String.toList_inj.mp spaces

end Suixinji.Deliveries.Local
