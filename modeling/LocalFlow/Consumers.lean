import LocalFlow.Listening

/-! The consumers that share the event channel of a page: it lasts as long as one of them is open,
and calls the listeners of the open ones only. -/
namespace LocalFlow
open Transition

/-- What the consumers see of a channel. -/
def Channel.face (channel : Channel) : Bool × List ((Nat × Nat) × String × Option Nat) :=
  (channel.closed, channel.listeners.map Listener.key)

/-- The channel there is while a consumer is open, and only then. -/
structure Page.Shared (s : Page) : Prop where
  counted : s.consumers = (s.handed.countP (fun own => !own.closed) : Nat)
  kept : ∀ (index : Nat) (channel : Channel), s.channels[index]? = some channel →
    (channel.closed = false ↔ s.sharedChannel = some index)
  inside : ∀ index, s.sharedChannel = some index → index < s.channels.length
  attending : ∀ own ∈ s.handed, own.closed = false → s.sharedChannel = some own.channel
  needed : s.sharedChannel ≠ none → 0 < s.consumers

/-- A registration has its listener in a channel. -/
def HasListener (channels : List Channel) (place : Nat) (registration : String × (Nat × Nat)) : Prop :=
  ∃ channel, channels[place]? = some channel ∧ ∃ listener ∈ channel.listeners,
    (listener.name, listener.id) = registration

/-- The listeners that there are: each was registered by its consumer, and is there until the
consumer closes. -/
structure Page.Registered (s : Page) : Prop where
  numbered : ∀ (consumer : Nat) (own : Consumer), s.handed[consumer]? = some own →
    ∀ (n : Nat) (registration : String × (Nat × Nat)),
    own.registrations[n]? = some registration → registration.2 = (consumer, n)
  owned : ∀ (index : Nat) (channel : Channel), s.channels[index]? = some channel →
    ∀ listener ∈ channel.listeners,
    ∃ own, s.handed[listener.id.1]? = some own ∧ own.channel = index ∧
      (listener.name, listener.id) ∈ own.registrations ∧
      (listener.upto = none ↔ own.closed = false)
  registered : ∀ own ∈ s.handed, ∀ registration ∈ own.registrations,
    HasListener s.channels own.channel registration
  distinct : ∀ channel ∈ s.channels, (channel.listeners.map Listener.id).Nodup

section Faces
variable {s t : Page} {old new : List Channel} {channel after : Channel} {index : Nat}

theorem face_of (same : new.map Channel.face = old.map Channel.face)
    (found : new[index]? = some after) :
    ∃ channel, old[index]? = some channel ∧ channel.closed = after.closed ∧
      channel.listeners.map Listener.key = after.listeners.map Listener.key := by
  have faces := congrArg (fun faces => faces[index]?) same
  simp only [List.getElem?_map, found, Option.map_some] at faces
  obtain ⟨channel, isChannel, sameFace⟩ := Option.map_eq_some_iff.mp faces.symm
  obtain ⟨closed, keys⟩ := Prod.mk.inj sameFace
  exact ⟨channel, isChannel, closed, keys⟩

theorem key_of {listener : Listener}
    (same : channel.listeners.map Listener.key = after.listeners.map Listener.key)
    (member : listener ∈ after.listeners) :
    ∃ old ∈ channel.listeners, old.id = listener.id ∧ old.name = listener.name ∧
      old.upto = listener.upto := by
  have isKey : listener.key ∈ channel.listeners.map Listener.key := same ▸ List.mem_map_of_mem member
  obtain ⟨old, isOld, sameKey⟩ := List.mem_map.mp isKey
  simp only [Listener.key, Prod.mk.injEq] at sameKey
  exact ⟨old, isOld, sameKey.1, sameKey.2.1, sameKey.2.2⟩

theorem faces_set (found : old[index]? = some channel) (same : after.face = channel.face) :
    (old.set index after).map Channel.face = old.map Channel.face := by
  apply List.ext_getElem?
  intro other
  rw [List.getElem?_map, List.getElem?_map, List.getElem?_set]
  split
  · next here =>
    rw [if_pos (List.getElem?_eq_some_iff.mp found).1, ← here, found]
    simp [same]
  · rfl

/-- What happens to a channel alone leaves the consumers as they are. -/
theorem Page.Shared.faces (shared : s.Shared)
    (same : new.map Channel.face = s.channels.map Channel.face) :
    Page.Shared { s with channels := new } := by
  refine ⟨shared.counted, ?_, ?_, shared.attending, shared.needed⟩
  · intro index after found
    obtain ⟨channel, isChannel, closed, _⟩ := face_of same found
    rw [← closed]
    exact shared.kept index channel isChannel
  · intro index isShared
    have lengths := congrArg List.length same
    rw [List.length_map, List.length_map] at lengths
    exact lengths ▸ shared.inside index isShared

theorem Page.Registered.faces (registered : s.Registered)
    (same : new.map Channel.face = s.channels.map Channel.face) :
    Page.Registered { s with channels := new } := by
  refine ⟨registered.numbered, ?_, ?_, ?_⟩
  · intro index after found listener member
    obtain ⟨channel, isChannel, _, keys⟩ := face_of same found
    obtain ⟨old, isOld, id, name, upto⟩ := key_of keys member
    rw [← id, ← name, ← upto]
    exact registered.owned index channel isChannel old isOld
  · intro own isOwn registration isRegistration
    obtain ⟨channel, isChannel, old, isOld, isSame⟩ :=
      registered.registered own isOwn registration isRegistration
    obtain ⟨after, isAfter, _, keys⟩ := face_of same.symm isChannel
    obtain ⟨listener, isListener, id, name, _⟩ := key_of keys isOld
    exact ⟨after, isAfter, listener, isListener, by rw [id, name, isSame]⟩
  · intro after isAfter
    obtain ⟨index, found⟩ := List.mem_iff_getElem?.mp isAfter
    obtain ⟨channel, isChannel, _, keys⟩ := face_of same found
    have ids := congrArg (List.map Prod.fst) keys
    rw [List.map_map, List.map_map] at ids
    exact ids ▸ registered.distinct channel (List.mem_of_getElem? isChannel)

end Faces

section Acts
variable {s t : Page} {consumer index : Nat} {own : Consumer} {name : String} {act : ChannelAct}

theorem channel_moves (moved : s.next (.channel index act) = some t) :
    ∃ channel after, s.channels[index]? = some channel ∧
    channel.next s.db act = some after ∧ t = { s with channels := s.channels.set index after } ∧
    (s.channels.set index after).map Channel.face = s.channels.map Channel.face := by
  obtain ⟨channel, isChannel, moved⟩ := Option.bind_eq_some_iff.mp moved
  obtain ⟨after, isNext, rfl⟩ := Option.map_eq_some_iff.mp moved
  obtain ⟨keys, closed⟩ := next_keys isNext
  exact ⟨channel, after, isChannel, isNext, rfl, faces_set isChannel (Prod.ext closed keys)⟩

theorem shared_start (db : Db) : (Page.start db).Shared where
  counted := rfl
  kept := fun _ _ never => absurd never (by simp [Page.start])
  inside := fun _ never => absurd never (by simp [Page.start])
  attending := fun _ never => absurd never List.not_mem_nil
  needed := fun never => absurd rfl never

theorem registered_start (db : Db) : (Page.start db).Registered where
  numbered := fun _ _ never => absurd never (by simp [Page.start])
  owned := fun _ _ never => absurd never (by simp [Page.start])
  registered := fun _ never => absurd never List.not_mem_nil
  distinct := fun _ never => absurd never List.not_mem_nil

/-- A new consumer shares the channel, or has one created. -/
theorem shared_eventChannel (shared : s.Shared) : s.eventChannel.Shared := by
  unfold Page.eventChannel
  split
  · next index isShared =>
    refine ⟨?_, shared.kept, shared.inside, ?_, ?_⟩
    · simp [shared.counted]
    · intro own isOwn open'
      obtain old | new := List.mem_append.mp isOwn
      · exact shared.attending own old open'
      · cases List.mem_singleton.mp new
        exact isShared
    · intro _
      have counted := shared.counted
      dsimp only
      omega
  · next none =>
    refine ⟨?_, ?_, ?_, ?_, ?_⟩
    · simp [shared.counted]
    · intro index channel found
      dsimp only at found ⊢
      rw [List.getElem?_append] at found
      split at found
      · next within =>
        have closed := shared.kept index channel found
        rw [none] at closed
        rw [closed]
        simp
        omega
      · next beyond =>
        rw [List.getElem?_singleton] at found
        split at found
        · cases found
          simp only [Option.some.injEq]
          refine iff_of_true rfl ?_
          omega
        · cases found
    · intro index isShared
      cases isShared
      simp
    · intro own isOwn open'
      obtain old | new := List.mem_append.mp isOwn
      · rw [shared.attending own old open'] at none
        cases none
      · cases List.mem_singleton.mp new
        rfl
    · intro _
      have counted := shared.counted
      dsimp only
      omega

theorem registered_eventChannel (registered : s.Registered) : s.eventChannel.Registered := by
  have handed : ∀ (channels : List Channel) (fresh : Consumer), fresh.registrations = [] →
      (∀ (index : Nat) (channel : Channel), channels[index]? = some channel →
        s.channels[index]? = some channel ∨ channel.listeners = []) →
      (∀ (index : Nat) (channel : Channel), s.channels[index]? = some channel →
        channels[index]? = some channel) →
      ∀ (consumers : Int) (sharedChannel : Option Nat),
        Page.Registered ⟨s.db, channels, sharedChannel, consumers, s.handed ++ [fresh]⟩ := by
    intro channels fresh nothing old kept consumers sharedChannel
    refine ⟨?_, ?_, ?_, ?_⟩
    · intro consumer own isOwn n registration isRegistration
      dsimp only at isOwn
      rw [List.getElem?_append] at isOwn
      split at isOwn
      · exact registered.numbered consumer own isOwn n registration isRegistration
      · rw [List.getElem?_singleton] at isOwn
        split at isOwn
        · cases isOwn
          rw [nothing] at isRegistration
          cases isRegistration
        · cases isOwn
    · intro index channel found listener member
      obtain isOld | none := old index channel found
      · obtain ⟨own, isOwn, rest⟩ := registered.owned index channel isOld listener member
        exact ⟨own, by rw [List.getElem?_append_left (List.getElem?_eq_some_iff.mp isOwn).1, isOwn], rest⟩
      · rw [none] at member
        cases member
    · intro own isOwn registration isRegistration
      obtain isOld | isNew := List.mem_append.mp isOwn
      · obtain ⟨channel, isChannel, rest⟩ := registered.registered own isOld registration isRegistration
        exact ⟨channel, kept _ _ isChannel, rest⟩
      · cases List.mem_singleton.mp isNew
        rw [nothing] at isRegistration
        cases isRegistration
    · intro channel isChannel
      obtain ⟨index, found⟩ := List.mem_iff_getElem?.mp isChannel
      obtain isOld | none := old index channel found
      · exact registered.distinct channel (List.mem_of_getElem? isOld)
      · rw [none]
        exact .nil
  unfold Page.eventChannel
  split
  · exact handed s.channels _ rfl (fun _ _ found => .inl found) (fun _ _ found => found) _ _
  · refine handed (s.channels ++ [Channel.create]) _ rfl ?_ ?_ _ _
    · intro index channel found
      rw [List.getElem?_append] at found
      split at found
      · exact .inl found
      · rw [List.getElem?_singleton] at found
        split at found
        · cases found
          exact .inr rfl
        · cases found
    · intro index channel found
      rw [List.getElem?_append_left (List.getElem?_eq_some_iff.mp found).1, found]

/-- The consumer that an act of the page is about. -/
theorem handed_set {own' other : Consumer} {index : Nat} (isOwn : s.handed[consumer]? = some own)
    (found : (s.handed.set consumer own')[index]? = some other) :
    index = consumer ∧ other = own' ∨ index ≠ consumer ∧ s.handed[index]? = some other := by
  rw [List.getElem?_set] at found
  split at found
  · next here =>
    rw [if_pos (List.getElem?_eq_some_iff.mp isOwn).1] at found
    exact .inl ⟨here.symm, (Option.some.inj found).symm⟩
  · next apart => exact .inr ⟨fun same => apart same.symm, found⟩

theorem handed_set_self {own' : Consumer} (isOwn : s.handed[consumer]? = some own) :
    (s.handed.set consumer own')[consumer]? = some own' := by
  rw [List.getElem?_set, if_pos rfl, if_pos (List.getElem?_eq_some_iff.mp isOwn).1]

theorem count_set {own' : Consumer} (isOwn : s.handed[consumer]? = some own)
    (open' : own.closed = false) :
    (s.handed.set consumer own').countP (fun own => !own.closed) + (if own'.closed then 1 else 0) =
      s.handed.countP (fun own => !own.closed) := by
  obtain ⟨within, isElement⟩ := List.getElem?_eq_some_iff.mp isOwn
  have positive : 0 < s.handed.countP (fun own => !own.closed) :=
    List.countP_pos_iff.mpr ⟨own, List.mem_of_getElem? isOwn, by simp [open']⟩
  rw [List.countP_set within, isElement, open']
  cases own'.closed
  · simp
    omega
  · simp
    omega

theorem channel_modify {channels : List Channel} {change : Channel → Channel} {place : Nat}
    {after : Channel}
    (found : (channels.modify place change)[index]? = some after) :
    ∃ channel, channels[index]? = some channel ∧ after = if place = index then change channel
      else channel := by
  rw [List.getElem?_modify] at found
  obtain ⟨channel, isChannel, same⟩ := Option.map_eq_some_iff.mp found
  exact ⟨channel, isChannel, same.symm⟩

theorem channel_modify_of {channels : List Channel} {change : Channel → Channel} {place : Nat}
    {channel : Channel}
    (found : channels[index]? = some channel) :
    (channels.modify place change)[index]? = some (if place = index then change channel
      else channel) := by
  rw [List.getElem?_modify, found]
  rfl

theorem shared_addEventListener (shared : s.Shared)
    (moved : s.addEventListener consumer name = some t) : t.Shared := by
  obtain ⟨own, isOwn, rfl⟩ := Option.map_eq_some_iff.mp moved
  dsimp only
  split
  · exact shared
  · next open' =>
    have open' := Bool.eq_false_iff.mpr open'
    have counted := @count_set s consumer own
      { own with
        registrations := own.registrations ++ [(name, (consumer, own.registrations.length))] }
      isOwn open'
    refine ⟨?_, ?_, ?_, ?_, shared.needed⟩
    · rw [shared.counted, ← counted]
      simp [open']
    · intro index after found
      obtain ⟨channel, isChannel, rfl⟩ := channel_modify found
      have kept := shared.kept index channel isChannel
      split <;> exact kept
    · intro index isShared
      simpa [Page.modify] using shared.inside index isShared
    · intro other isOther stays
      obtain ⟨place, found⟩ := List.mem_iff_getElem?.mp isOther
      obtain ⟨_, rfl⟩ | ⟨_, found⟩ := handed_set isOwn found
      · exact shared.attending own (List.mem_of_getElem? isOwn) open'
      · exact shared.attending other (List.mem_of_getElem? found) stays

theorem registered_addEventListener (shared : s.Shared) (registered : s.Registered)
    (moved : s.addEventListener consumer name = some t) : t.Registered := by
  obtain ⟨own, isOwn, rfl⟩ := Option.map_eq_some_iff.mp moved
  dsimp only
  split
  · exact registered
  · next open' =>
    have open' := Bool.eq_false_iff.mpr open'
    have isShared := shared.attending own (List.mem_of_getElem? isOwn) open'
    obtain ⟨home, isHome⟩ : ∃ home, s.channels[own.channel]? = some home :=
      ⟨_, List.getElem?_eq_getElem (shared.inside _ isShared)⟩
    refine ⟨?_, ?_, ?_, ?_⟩
    · intro place other found n registration isRegistration
      obtain ⟨rfl, rfl⟩ | ⟨_, found⟩ := handed_set isOwn found
      · rw [List.getElem?_append] at isRegistration
        split at isRegistration
        · exact registered.numbered place own isOwn n registration isRegistration
        · rw [List.getElem?_singleton] at isRegistration
          split at isRegistration
          · cases isRegistration
            simp only [Prod.mk.injEq, true_and]
            omega
          · cases isRegistration
      · exact registered.numbered place other found n registration isRegistration
    · intro index after found listener member
      obtain ⟨channel, isChannel, rfl⟩ := channel_modify found
      have old : listener ∈ channel.listeners → ∃ other, (s.handed.set consumer
          { own with
            registrations :=
              own.registrations ++ [(name, (consumer, own.registrations.length))] })[listener.id.1]? =
            some other ∧ other.channel = index ∧ (listener.name, listener.id) ∈ other.registrations ∧
          (listener.upto = none ↔ other.closed = false) := by
        intro member
        obtain ⟨other, isOther, here, isRegistration, stays⟩ :=
          registered.owned index channel isChannel listener member
        by_cases mine : listener.id.1 = consumer
        · rw [mine, isOwn] at isOther
          cases isOther
          rw [mine]
          exact ⟨_, handed_set_self isOwn, here, List.mem_append_left _ isRegistration, stays⟩
        · refine ⟨other, ?_, here, isRegistration, stays⟩
          rw [List.getElem?_set, if_neg (fun same => mine same.symm), isOther]
      split at member
      · next here =>
        obtain member | new := List.mem_append.mp member
        · exact old member
        · cases List.mem_singleton.mp new
          exact ⟨_, handed_set_self isOwn, here, List.mem_append_right _ List.mem_cons_self,
            iff_of_true rfl open'⟩
      · exact old member
    · intro other isOther registration isRegistration
      have old : ∀ place registration, HasListener s.channels place registration →
          HasListener (s.modify own.channel
            (fun channel => channel.addEventListener name (consumer, own.registrations.length))) place
            registration := by
        rintro place registration ⟨channel, isChannel, listener, member, same⟩
        refine ⟨_, channel_modify_of isChannel, listener, ?_, same⟩
        split
        · exact List.mem_append_left _ member
        · exact member
      obtain ⟨place, found⟩ := List.mem_iff_getElem?.mp isOther
      obtain ⟨_, rfl⟩ | ⟨_, found⟩ := handed_set isOwn found
      · obtain isOld | isNew := List.mem_append.mp isRegistration
        · exact old _ _ (registered.registered own (List.mem_of_getElem? isOwn) registration isOld)
        · cases List.mem_singleton.mp isNew
          refine ⟨_, channel_modify_of isHome, ?_⟩
          rw [if_pos rfl]
          exact ⟨_, List.mem_append_right _ List.mem_cons_self, rfl⟩
      · exact old _ _ (registered.registered other
          (List.mem_of_getElem? found) registration isRegistration)
    · intro after isAfter
      obtain ⟨index, found⟩ := List.mem_iff_getElem?.mp isAfter
      obtain ⟨channel, isChannel, rfl⟩ := channel_modify found
      have distinct := registered.distinct channel (List.mem_of_getElem? isChannel)
      split
      · simp only [Channel.addEventListener, List.map_append, List.map_cons, List.map_nil]
        rw [List.nodup_append]
        refine ⟨distinct, List.nodup_singleton _, ?_⟩
        rintro id isId _ isNew rfl
        cases List.mem_singleton.mp isNew
        -- the number of a registration is its place
        obtain ⟨listener, member, same⟩ := List.mem_map.mp isId
        obtain ⟨other, isOther, _, isRegistration, _⟩ :=
          registered.owned index channel isChannel listener member
        rw [same, isOwn] at isOther
        cases isOther
        obtain ⟨n, isPlace⟩ := List.mem_iff_getElem?.mp isRegistration
        have numbered := registered.numbered consumer own isOwn n _ isPlace
        have within := (List.getElem?_eq_some_iff.mp isPlace).1
        simp only [same, Prod.mk.injEq, true_and] at numbered
        omega
      · exact distinct

/-! ## A consumer closes -/

theorem drop_drop (channel : Channel) (listener : Listener) :
    channel.drop (channel.drop listener) = channel.drop listener := by
  cases upto : listener.upto <;> simp [Channel.drop, upto]

/-- A channel without the listeners of some registrations. -/
theorem removeAll (registrations : List (String × (Nat × Nat))) (channel : Channel) :
    registrations.foldl (fun channel registration =>
      channel.removeEventListener registration.1 registration.2) channel =
      { channel with
        listeners := channel.listeners.map (fun listener =>
          if (listener.name, listener.id) ∈ registrations then channel.drop listener
            else listener) } := by
  induction registrations generalizing channel with
  | nil => simp
  | cons registration registrations ih =>
    rw [List.foldl_cons, ih]
    simp only [Channel.removeEventListener, List.map_map]
    congr 1
    apply List.map_congr_left
    intro listener _
    have dropped : ∀ other, Channel.drop { channel with listeners := other } = channel.drop :=
      fun _ => rfl
    by_cases first : listener.name = registration.1 ∧ listener.id = registration.2
    · have names : (channel.drop listener).name = listener.name ∧
        (channel.drop listener).id = listener.id := by
        unfold Channel.drop
        split <;> exact ⟨rfl, rfl⟩
      have isFirst : (listener.name, listener.id) = registration := Prod.ext first.1 first.2
      simp only [Function.comp_apply, if_pos first, names, isFirst, List.mem_cons, true_or, if_true,
        dropped, drop_drop, ite_self]
    · have notFirst : (listener.name, listener.id) ≠ registration := fun same =>
        first ⟨congrArg Prod.fst same, congrArg Prod.snd same⟩
      simp only [Function.comp_apply, if_neg first, List.mem_cons, notFirst, false_or, dropped]

/-- What a consumer that closes does to its channel, where `last` says that no other one is open. -/
def Consumer.leave (own : Consumer) (last : Bool) (channel : Channel) : Channel :=
  let removed := own.registrations.foldl (fun channel registration =>
    channel.removeEventListener registration.1 registration.2)
    channel
  if last then removed.close else removed

/-- What becomes of a listener. -/
def Consumer.leaves (own : Consumer) (last : Bool) (channel : Channel) (listener : Listener) :
    Listener :=
  if last = true ∨ (listener.name, listener.id) ∈ own.registrations then channel.drop listener
    else listener

theorem leave_listeners (last : Bool) (channel : Channel) :
    (own.leave last channel).listeners = channel.listeners.map (own.leaves last channel) := by
  unfold Consumer.leave
  rw [removeAll]
  cases last with
  | false =>
    simp only [Bool.false_eq_true, if_false]
    apply List.map_congr_left
    intro listener _
    simp [Consumer.leaves]
  | true =>
    simp only [if_true, Channel.close, List.map_map]
    apply List.map_congr_left
    intro listener _
    have dropped : ∀ other, Channel.drop { channel with listeners := other } = channel.drop :=
      fun _ => rfl
    simp only [Function.comp_apply, Consumer.leaves, true_or, if_true, dropped]
    split
    · exact drop_drop channel listener
    · rfl

theorem leaves_names (last : Bool) (channel : Channel) (listener : Listener) :
    (own.leaves last channel listener).name = listener.name ∧
    (own.leaves last channel listener).id = listener.id := by
  unfold Consumer.leaves Channel.drop
  split
  · split <;> exact ⟨rfl, rfl⟩
  · exact ⟨rfl, rfl⟩

theorem leaves_gone {last : Bool} {channel : Channel} {listener : Listener}
    (goes : last = true ∨ (listener.name, listener.id) ∈ own.registrations) :
    (own.leaves last channel listener).upto ≠ none := by
  unfold Consumer.leaves
  rw [if_pos goes]
  unfold Channel.drop
  split
  · exact Option.some_ne_none _
  · next gone => exact gone

theorem leave_closed (last : Bool) (channel : Channel) :
    (own.leave last channel).closed = (last || channel.closed) := by
  unfold Consumer.leave
  rw [removeAll]
  cases last <;> rfl

/-- The page after a consumer has closed. -/
theorem close_moves (moved : s.close consumer = some t) : ∃ own, s.handed[consumer]? = some own ∧
    (own.closed = true ∧ t = s ∨ own.closed = false ∧
      ∃ last : Bool, (last = true ↔ s.consumers - 1 = 0) ∧
      t = ⟨s.db, s.channels.modify own.channel (own.leave last), if last then none
        else s.sharedChannel, s.consumers - 1,
        s.handed.set consumer { own with closed := true }⟩) := by
  obtain ⟨own, isOwn, rfl⟩ := Option.map_eq_some_iff.mp moved
  refine ⟨own, isOwn, ?_⟩
  dsimp only
  split
  · next closed => exact .inl ⟨closed, rfl⟩
  · next open' =>
    refine .inr ⟨Bool.eq_false_iff.mpr open', ?_⟩
    split
    · next last =>
      refine ⟨true, iff_of_true rfl last, ?_⟩
      simp only [Page.modify, List.modify_modify_eq, if_true, Page.mk.injEq, true_and, and_true]
      rfl
    · next others =>
      refine ⟨false, iff_of_false Bool.false_ne_true others, ?_⟩
      simp only [Page.modify, Bool.false_eq_true, if_false]
      rfl

theorem shared_close (shared : s.Shared) (moved : s.close consumer = some t) : t.Shared := by
  obtain ⟨own, isOwn, ⟨_, rfl⟩ | ⟨open', last, isLast, rfl⟩⟩ := close_moves moved
  · exact shared
  · have counted := shared.counted
    have fewer := @count_set s consumer own { own with closed := true } isOwn open'
    have here := shared.attending own (List.mem_of_getElem? isOwn) open'
    simp only [if_true] at fewer
    refine ⟨?_, ?_, ?_, ?_, ?_⟩
    · dsimp only
      omega
    · intro index after found
      obtain ⟨channel, isChannel, rfl⟩ := channel_modify found
      have kept := shared.kept index channel isChannel
      rw [here] at kept
      cases last with
      | true =>
        simp only [if_true, reduceCtorEq, iff_false]
        split
        · simp [leave_closed]
        · next apart =>
          intro stays
          exact apart (Option.some.inj (kept.mp stays))
      | false =>
        simp only [Bool.false_eq_true, if_false, here]
        split
        · rw [leave_closed]
          exact kept
        · exact kept
    · intro index isShared
      cases last with
      | true => cases isShared
      | false => simpa using shared.inside index isShared
    · intro other isOther stays
      obtain ⟨place, found⟩ := List.mem_iff_getElem?.mp isOther
      obtain ⟨_, rfl⟩ | ⟨_, isOld⟩ := handed_set isOwn found
      · cases stays
      · cases last with
        | true =>
          -- the last consumer leaves no open one
          have none := isLast.mp rfl
          have positive : 0 < (s.handed.set consumer { own with closed := true }).countP
            (fun own => !own.closed) :=
            List.countP_pos_iff.mpr ⟨other, isOther, by simp [stays]⟩
          omega
        | false => exact shared.attending other (List.mem_of_getElem? isOld) stays
    · intro some'
      cases last with
      | true => exact absurd rfl some'
      | false =>
        have more : ¬s.consumers - 1 = 0 := fun none => absurd (isLast.mpr none) Bool.false_ne_true
        have needed := shared.needed some'
        dsimp only
        omega

theorem registered_close (shared : s.Shared) (registered : s.Registered)
    (moved : s.close consumer = some t) : t.Registered := by
  obtain ⟨own, isOwn, ⟨_, rfl⟩ | ⟨open', last, isLast, rfl⟩⟩ := close_moves moved
  · exact registered
  · have fewer := @count_set s consumer own { own with closed := true } isOwn open'
    have counted := shared.counted
    simp only [if_true] at fewer
    -- after the last consumer none is open
    have none : last = true → ∀ other ∈ s.handed.set consumer { own with closed := true },
      other.closed = true := by
      intro isTrue other isOther
      have empty := isLast.mp isTrue
      by_contra stays
      have positive : 0 < (s.handed.set consumer { own with closed := true }).countP
        (fun own => !own.closed) :=
        List.countP_pos_iff.mpr ⟨other, isOther, by simpa using stays⟩
      omega
    refine ⟨?_, ?_, ?_, ?_⟩
    · intro place other found n registration isRegistration
      obtain ⟨rfl, rfl⟩ | ⟨_, found⟩ := handed_set isOwn found
      · exact registered.numbered place own isOwn n registration isRegistration
      · exact registered.numbered place other found n registration isRegistration
    · intro index after found left member
      obtain ⟨channel, isChannel, rfl⟩ := channel_modify found
      have listed : ∃ listener ∈ channel.listeners, left.name = listener.name ∧ left.id = listener.id ∧
          (left = listener ∧ own.channel ≠ index ∨ own.channel = index ∧
            left = own.leaves last channel listener) := by
        split at member
        · next here =>
          rw [leave_listeners] at member
          obtain ⟨listener, isListener, rfl⟩ := List.mem_map.mp member
          obtain ⟨names, ids⟩ := @leaves_names own last channel listener
          exact ⟨listener, isListener, names, ids, .inr ⟨here, rfl⟩⟩
        · next apart => exact ⟨left, member, rfl, rfl, .inl ⟨rfl, apart⟩⟩
      obtain ⟨listener, isListener, names, ids, fate⟩ := listed
      obtain ⟨other, isOther, here, isRegistration, stays⟩ :=
        registered.owned index channel isChannel listener isListener
      rw [names, ids]
      by_cases mine : listener.id.1 = consumer
      · rw [mine, isOwn] at isOther
        cases isOther
        rw [mine]
        refine ⟨_, handed_set_self isOwn, here, isRegistration, iff_of_false ?_ Bool.true_eq_false.mp⟩
        obtain ⟨_, apart⟩ | ⟨_, rfl⟩ := fate
        · exact absurd here apart
        · exact leaves_gone (.inr isRegistration)
      · have isAfter : (s.handed.set consumer { own with closed := true })[listener.id.1]? =
          some other := by
          rw [List.getElem?_set, if_neg (fun same => mine same.symm), isOther]
        refine ⟨other, isAfter, here, isRegistration, ?_⟩
        obtain ⟨rfl, _⟩ | ⟨_, rfl⟩ := fate
        · exact stays
        · cases last with
          | true =>
            refine iff_of_false (leaves_gone (.inl rfl)) ?_
            rw [none rfl other (List.mem_of_getElem? isAfter)]
            exact Bool.true_eq_false.mp
          | false =>
            have foreign : (listener.name, listener.id) ∉ own.registrations := by
              intro isMine
              obtain ⟨n, isPlace⟩ := List.mem_iff_getElem?.mp isMine
              exact mine (congrArg Prod.fst (registered.numbered consumer own isOwn n _ isPlace))
            rw [Consumer.leaves, if_neg (by simpa using foreign)]
            exact stays
    · intro other isOther registration isRegistration
      have kept : ∀ place, HasListener s.channels place registration →
          HasListener (s.channels.modify own.channel (own.leave last)) place registration := by
        rintro place ⟨channel, isChannel, listener, member, same⟩
        refine ⟨_, channel_modify_of isChannel, ?_⟩
        split
        · obtain ⟨names, ids⟩ := @leaves_names own last channel listener
          rw [leave_listeners]
          exact ⟨_, List.mem_map_of_mem member, by rw [names, ids, same]⟩
        · exact ⟨listener, member, same⟩
      obtain ⟨place, found⟩ := List.mem_iff_getElem?.mp isOther
      obtain ⟨_, rfl⟩ | ⟨_, found⟩ := handed_set isOwn found
      · exact kept _ (registered.registered own
          (List.mem_of_getElem? isOwn) registration isRegistration)
      · exact kept _ (registered.registered other
          (List.mem_of_getElem? found) registration isRegistration)
    · intro after isAfter
      obtain ⟨index, found⟩ := List.mem_iff_getElem?.mp isAfter
      obtain ⟨channel, isChannel, rfl⟩ := channel_modify found
      have distinct := registered.distinct channel (List.mem_of_getElem? isChannel)
      split
      · have same : (channel.listeners.map (own.leaves last channel)).map Listener.id =
          channel.listeners.map Listener.id := by
          rw [List.map_map]
          exact List.map_congr_left (fun listener _ => (leaves_names last channel listener).2)
        rw [leave_listeners, same]
        exact distinct
      · exact distinct

end Acts

/-! ## Runs of the page -/

/-- A channel is a client of the streams that connects again from where it was, and hands on what
that receives. -/
structure Channel.Delivers (db : Db) (channel : Channel) : Prop where
  client : ∃ start acts, Changes (fun _ => True) Db.empty start ∧
    Run Resuming (Feed.start start) acts (channel.view db)
  heard : ∀ listener ∈ channel.listeners, Heard channel.received listener

section Runs
variable {s t : Page} {act : PageAct} {acts : List PageAct} {db : Db} {channel : Channel}
  {own : Consumer} {consumer : Nat}

theorem condition_leave (last : Bool) (condition : Condition channel) :
    Condition (own.leave last channel) := by
  unfold Consumer.leave
  rw [removeAll]
  cases last with
  | false => exact condition_listeners condition _
  | true => exact condition_close (condition_listeners condition _)

theorem view_leave (last : Bool) : (own.leave last channel).view db = channel.view db := by
  unfold Consumer.leave
  rw [removeAll]
  cases last with
  | false => rfl
  | true =>
    cases sockets : channel.sockets with
    | nil => simp [Channel.view, Channel.close, sockets]
    | cons socket rest =>
      simp only [Channel.view, Channel.close, sockets, if_true, List.map_cons, List.head?_cons,
        Option.bind_some]
      split <;> rfl

theorem received_leave (last : Bool) : (own.leave last channel).received = channel.received := by
  unfold Consumer.leave
  rw [removeAll]
  cases last <;> rfl

theorem delivers_leave (last : Bool) (delivers : channel.Delivers db) :
    (own.leave last channel).Delivers db := by
  refine ⟨?_, ?_⟩
  · rw [view_leave]
    exact delivers.client
  · rw [leave_listeners, received_leave]
    intro listener member
    obtain ⟨old, isOld, rfl⟩ := List.mem_map.mp member
    unfold Consumer.leaves
    split
    · exact heard_drop (delivers.heard old isOld)
    · exact delivers.heard old isOld

theorem delivers_add (name : String) (id : Nat × Nat) (delivers : channel.Delivers db) :
    (channel.addEventListener name id).Delivers db := by
  refine ⟨delivers.client, ?_⟩
  intro listener member
  obtain old | new := List.mem_append.mp member
  · exact delivers.heard listener old
  · cases List.mem_singleton.mp new
    exact heard_new id name

theorem delivers_create (changes : Changes (fun _ => True) Db.empty db) : Channel.create.Delivers db :=
  ⟨⟨db, [], changes, .nil _⟩, fun _ never => absurd never List.not_mem_nil⟩

/-- What holds of every channel before a step, and of a new one, holds of every channel after it. -/
theorem channels_step {P Q : Channel → Prop} (holds : ∀ channel ∈ s.channels, P channel)
    (step : s.Step act t)
    (stays : ∀ channel, P channel → Q channel) (creates : Q Channel.create)
    (adds : ∀ channel name id, P channel → Q (Channel.addEventListener channel name id))
    (leaves : ∀ channel own last, P channel → Q (Consumer.leave own last channel))
    (moves : ∀ channel after index step, act = .channel index step →
      channel.next s.db step = some after → P channel → Q after) :
    ∀ channel ∈ t.channels, Q channel := by
  have changed : ∀ (place : Nat) (change : Channel → Channel),
    (∀ channel, P channel → Q (change channel)) →
      ∀ channel ∈ s.channels.modify place change, Q channel := by
    intro place change keeps after isAfter
    obtain ⟨index, found⟩ := List.mem_iff_getElem?.mp isAfter
    obtain ⟨channel, isChannel, rfl⟩ := channel_modify found
    have before := holds channel (List.mem_of_getElem? isChannel)
    split
    · exact keeps channel before
    · exact stays channel before
  obtain ⟨_, moved⟩ := step
  cases act with
  | store db =>
    cases moved
    exact fun channel member => stays channel (holds channel member)
  | eventChannel =>
    cases moved
    unfold Page.eventChannel
    split
    · exact fun channel member => stays channel (holds channel member)
    · intro channel member
      obtain old | new := List.mem_append.mp member
      · exact stays channel (holds channel old)
      · cases List.mem_singleton.mp new
        exact creates
  | addEventListener consumer name =>
    obtain ⟨own, _, rfl⟩ := Option.map_eq_some_iff.mp moved
    dsimp only
    split
    · exact fun channel member => stays channel (holds channel member)
    · exact changed _ _ (fun channel before => adds channel _ _ before)
  | close consumer =>
    obtain ⟨own, _, ⟨_, rfl⟩ | ⟨_, last, _, rfl⟩⟩ := close_moves moved
    · exact fun channel member => stays channel (holds channel member)
    · exact changed _ _ (fun channel before => leaves channel own last before)
  | channel index step =>
    obtain ⟨channel, after, isChannel, isNext, rfl, _⟩ := channel_moves moved
    intro other isOther
    obtain old | rfl := List.mem_or_eq_of_mem_set isOther
    · exact stays other (holds other old)
    · exact moves channel other index step rfl isNext (holds channel (List.mem_of_getElem? isChannel))

theorem db_changes (changes : Changes (fun _ => True) Db.empty s.db) (step : s.Step act t) :
    Changes (fun _ => True) Db.empty t.db := by
  obtain ⟨edits, moved⟩ := step
  cases act with
  | store db =>
    cases moved
    exact changes.tail (edits db rfl)
  | eventChannel =>
    cases moved
    unfold Page.eventChannel
    split <;> exact changes
  | addEventListener consumer name =>
    obtain ⟨own, _, rfl⟩ := Option.map_eq_some_iff.mp moved
    dsimp only
    split <;> exact changes
  | close consumer =>
    obtain ⟨own, _, ⟨_, rfl⟩ | ⟨_, last, _, rfl⟩⟩ := close_moves moved <;> exact changes
  | channel index step =>
    obtain ⟨channel, after, _, _, rfl, _⟩ := channel_moves moved
    exact changes

structure Page.Sound (s : Page) : Prop where
  changes : Changes (fun _ => True) Db.empty s.db
  shared : s.Shared
  registered : s.Registered
  conditions : ∀ channel ∈ s.channels, Condition channel

theorem sound_step (sound : s.Sound) (step : s.Step act t) : t.Sound := by
  refine ⟨db_changes sound.changes step, ?_, ?_, ?_⟩
  · obtain ⟨_, moved⟩ := step
    cases act with
    | store db =>
      cases moved
      exact ⟨sound.shared.counted, sound.shared.kept, sound.shared.inside, sound.shared.attending,
        sound.shared.needed⟩
    | eventChannel =>
      cases moved
      exact shared_eventChannel sound.shared
    | addEventListener consumer name => exact shared_addEventListener sound.shared moved
    | close consumer => exact shared_close sound.shared moved
    | channel index step =>
      obtain ⟨_, _, _, _, rfl, faces⟩ := channel_moves moved
      exact sound.shared.faces faces
  · obtain ⟨_, moved⟩ := step
    cases act with
    | store db =>
      cases moved
      exact ⟨sound.registered.numbered, sound.registered.owned, sound.registered.registered,
        sound.registered.distinct⟩
    | eventChannel =>
      cases moved
      exact registered_eventChannel sound.registered
    | addEventListener consumer name =>
      exact registered_addEventListener sound.shared sound.registered moved
    | close consumer => exact registered_close sound.shared sound.registered moved
    | channel index step =>
      obtain ⟨_, _, _, _, rfl, faces⟩ := channel_moves moved
      exact sound.registered.faces faces
  · exact channels_step sound.conditions step (fun _ condition => condition) condition_create
      (fun _ _ _ condition => condition_listeners condition _) (fun _ _ last condition =>
        condition_leave last condition)
      (fun _ _ _ _ _ isNext condition => condition_next condition isNext)

theorem delivers_step (sound : s.Sound) (delivers : ∀ channel ∈ s.channels, channel.Delivers s.db)
    (calm : act.calm = true)
    (step : s.Step act t) : ∀ channel ∈ t.channels, channel.Delivers t.db := by
  -- a statement of the store goes to every client
  by_cases stores : ∃ db, act = .store db
  · obtain ⟨db, rfl⟩ := stores
    obtain ⟨edits, moved⟩ := step
    cases moved
    intro channel member
    obtain ⟨⟨start, acts, changes, run⟩, heard⟩ := delivers channel member
    have stored : Resuming (channel.view s.db) (.store db) (channel.view db) := by
      refine ⟨⟨fun other isOther => ?_, rfl⟩, trivial⟩
      cases isOther
      exact edits db rfl
    exact ⟨⟨start, _, changes, run.snoc stored⟩, heard⟩
  · have same : t.db = s.db := by
      obtain ⟨_, moved⟩ := step
      cases act with
      | store db => exact absurd ⟨db, rfl⟩ stores
      | eventChannel =>
        cases moved
        unfold Page.eventChannel
        split <;> rfl
      | addEventListener consumer name =>
        obtain ⟨own, _, rfl⟩ := Option.map_eq_some_iff.mp moved
        dsimp only
        split <;> rfl
      | close consumer =>
        obtain ⟨own, _, ⟨_, rfl⟩ | ⟨_, last, _, rfl⟩⟩ := close_moves moved <;> rfl
      | channel index step =>
        obtain ⟨_, _, _, _, rfl, _⟩ := channel_moves moved
        rfl
    rw [same]
    refine channels_step (P := fun channel => Condition channel ∧ channel.Delivers s.db)
      (fun channel member => ⟨sound.conditions channel member, delivers channel member⟩) step
        (fun _ both => both.2)
      (delivers_create sound.changes) (fun _ name id both => delivers_add name id both.2)
      (fun _ _ last both => delivers_leave last both.2) ?_
    rintro channel after index step rfl isNext ⟨condition, ⟨start, acts, changes, run⟩, heard⟩
    obtain ⟨more, further⟩ := refines_next condition calm isNext
    exact ⟨⟨start, _, changes, run.append further⟩, heard_next heard calm isNext⟩

theorem sound_start (changes : Changes (fun _ => True) Db.empty db) : (Page.start db).Sound :=
  ⟨changes, shared_start db, registered_start db, fun _ never => absurd never List.not_mem_nil⟩

theorem delivers_run (sound : s.Sound) (delivers : ∀ channel ∈ s.channels, channel.Delivers s.db)
    (run : Run Page.Step s acts t) (calm : ∀ act ∈ acts, act.calm = true) :
    ∀ channel ∈ t.channels, channel.Delivers t.db := by
  induction run with
  | nil => exact delivers
  | cons step _ ih =>
    obtain ⟨first, rest⟩ := List.forall_mem_cons.mp calm
    exact ih (sound_step sound step) (delivers_step sound delivers first step) rest

/-- Whatever the consumers of the page, the browser and the server do: there is one channel that is
not closed while a consumer is open and none otherwise, every channel is connected, about to be,
refused or closed for good, and the listeners that are called are those of the open consumers. Where
no listener throws, each has been called with the events of its name that the channel has received
while it was there, once each and in the order of their ids, and none was passed over that was not
deleted. -/
theorem event_channels (changes : Changes (fun _ => True) Db.empty db)
    (run : Run Page.Step (Page.start db) acts s) :
    s.Shared ∧ s.Registered ∧ (∀ channel ∈ s.channels, Condition channel) ∧
      ((∀ act ∈ acts, act.calm = true) → ∀ channel ∈ s.channels,
        channel.Delivers s.db ∧ channel.received.Pairwise (fun a b => a.id < b.id) ∧
        ∀ first position, channel.first = some first → channel.cursor = some position →
          ∀ event ∈ s.db.events.history,
          first < event.id → event.id ≤ position → event ∈ channel.received ∨
            event ∈ s.db.events.deleted) := by
  have sound : s.Sound := run.invariant sound_step (sound_start changes)
  refine ⟨sound.shared, sound.registered, sound.conditions, fun calm channel member => ?_⟩
  have delivers := delivers_run (sound_start changes)
    (fun _ never => absurd never List.not_mem_nil) run calm channel member
  obtain ⟨start, clientActs, clientChanges, clientRun⟩ := delivers.client
  have coherent := coherent_run clientChanges clientRun
  refine ⟨delivers, ?_, ?_⟩
  · cases isPosition : channel.cursor with
    | none =>
      have nothing : channel.received = [] := (coherent.fresh isPosition).2
      rw [nothing]
      exact .nil
    | some position =>
      obtain ⟨first, _, received⟩ := coherent.received position isPosition
      exact received.increasing
  · intro first position isFirst isPosition event isEvent low high
    obtain ⟨first', same, received⟩ := coherent.received position isPosition
    obtain rfl : first = first' := Option.some.inj (isFirst.symm.trans same)
    obtain carried | gone := received.covers coherent.sane isEvent low high
    · obtain ⟨_, taken, isSame⟩ := List.mem_map.mp carried
      cases isSame
      exact .inl taken
    · exact .inr (coherent.buried event gone)

/-- A consumer hears of one event and closes. -/
theorem event_channels_close :
    ∃ acts s, Run Page.Step (Page.start Db.empty) acts s ∧ s.sharedChannel = none ∧
    (∃ channel ∈ s.channels, channel.received.map EventRecord.id = [1] ∧
      channel.listeners.map (fun listener => listener.calls.map EventRecord.id) = [[1]]) ∧
    ∀ channel ∈ s.channels, Condition channel ∧ channel.Delivers s.db := by
  let one := Db.empty.addEvent "" none "config_changed"
  have steps {s t : Page} {act : PageAct} (moved : s.next act = some t)
    (quiet : ∀ db, act ≠ .store db) : s.Step act t :=
    ⟨fun db isStore => absurd isStore (quiet db), moved⟩
  have run : ∃ s, Run Page.Step (Page.start Db.empty)
    [.eventChannel, .addEventListener 0 "config_changed",
      .channel 0 (.opened 1), .channel 0 (.message 1 none), .store one, .channel 0 (.serve 1 .poll),
      .channel 0 (.serve 1 .begin), .channel 0 (.message 1 none), .close 0] s ∧ s.sharedChannel = none ∧
      ∃ channel ∈ s.channels, channel.received.map EventRecord.id = [1] ∧
        channel.listeners.map (fun listener => listener.calls.map EventRecord.id) = [[1]] := by
    have stored : ∀ s : Page, s.db = Db.empty → s.Step (.store one) { s with db := one } := by
      intro s isEmpty
      refine ⟨fun db isStore => ?_, rfl⟩
      cases isStore
      rw [isEmpty]
      exact .event rfl
    refine ⟨_, .cons (steps rfl (fun _ same => by cases same)) <|
      .cons (steps rfl (fun _ same => by cases same)) <|
      .cons (steps rfl (fun _ same => by cases same)) <|
        .cons (steps rfl (fun _ same => by cases same)) <|
      .cons (stored _ rfl) <| .cons (steps rfl (fun _ same => by cases same)) <|
      .cons (steps rfl (fun _ same => by cases same)) <|
        .cons (steps rfl (fun _ same => by cases same)) <|
      .cons (steps rfl (fun _ same => by cases same)) <| .nil _, rfl, ?_⟩
    exact ⟨_, List.mem_cons_self, rfl, rfl⟩
  obtain ⟨s, run, none, heard⟩ := run
  obtain ⟨_, _, conditions, delivers⟩ := event_channels .refl run
  exact ⟨_, s, run, none, heard, fun channel member =>
    ⟨conditions channel member, (delivers (by decide) channel member).1⟩⟩

end Runs

end LocalFlow
