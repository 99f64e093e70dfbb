import Mathlib.Data.List.Basic

/-!
# Mailboxes with consumers

A mailbox hands its messages to consumers batch by batch and takes a message
back only when a consumer that is through with its whole batch says so. A
message may be handed out again meanwhile, so it is consumed at least once.
Where consuming a message makes `done` true of its body, no body is lost: it
is in the mailbox or it is done.
-/

namespace Beeflow

structure Message (α : Type*) where
  id : Nat
  body : α

/-- A consumer works through its batch in order. -/
structure Consumer (α : Type*) where
  batch : List (Message α)
  todo : List (Message α)

structure Mailbox (α : Type*) where
  sent : Nat
  messages : List (Message α)
  consumers : List (Consumer α)

namespace Mailbox

variable {α : Type*}

def empty : Mailbox α := ⟨0, [], []⟩

def find? (b : Mailbox α) (id : Nat) : Option (Message α) := b.messages.find? (·.id = id)

def send (b : Mailbox α) (body : α) : Mailbox α :=
  { b with sent := b.sent + 1, messages := b.messages ++ [⟨b.sent, body⟩] }

def sendAll (b : Mailbox α) (bodies : List α) : Mailbox α := bodies.foldl send b

def receive (b : Mailbox α) (ids : List Nat) : Mailbox α :=
  { b with consumers := b.consumers ++ [⟨ids.filterMap b.find?, ids.filterMap b.find?⟩] }

def advance (b : Mailbox α) (k : Nat) : Mailbox α :=
  { b with consumers := b.consumers.modify k fun c => { c with todo := c.todo.tail } }

/-- The consumer stops, and its batch stays. -/
def dismiss (b : Mailbox α) (k : Nat) : Mailbox α :=
  { b with consumers := b.consumers.eraseIdx k }

def remove (b : Mailbox α) (ids : List Nat) : Mailbox α :=
  { b with messages := b.messages.filter (·.id ∉ ids) }

/-- The messages, and what the consumers were handed. -/
def known (b : Mailbox α) : List (Message α) := b.messages ++ b.consumers.flatMap (·.batch)

theorem consumers_sendAll (b : Mailbox α) (bodies : List α) :
    (b.sendAll bodies).consumers = b.consumers := by
  induction bodies generalizing b with
  | nil => rfl
  | cons body bodies ih => exact ih (b.send body)

theorem sendAll_consumers (b : Mailbox α) (bodies : List α) (consumers : List (Consumer α)) :
    { b.sendAll bodies with consumers := consumers } =
      { b with consumers := consumers }.sendAll bodies := by
  induction bodies generalizing b with
  | nil => rfl
  | cons body bodies ih => exact ih (b.send body)

-- ---------------------------------------------------------------------------
-- What the operations keep
-- ---------------------------------------------------------------------------

/-- Ids name messages, and a consumer is done with what it has behind it. -/
structure Valid (done : α → Prop) (b : Mailbox α) : Prop where
  fresh : ∀ m ∈ b.known, m.id < b.sent
  ids : ∀ m ∈ b.known, ∀ m' ∈ b.known, m.id = m'.id → m = m'
  todo : ∀ c ∈ b.consumers, c.todo ⊆ c.batch
  behind : ∀ c ∈ b.consumers, ∀ m ∈ c.batch, m ∈ c.todo ∨ done m.body

/-- The body waits in the mailbox, or it is done. -/
def Holds (done : α → Prop) (b : Mailbox α) (body : α) : Prop :=
  (∃ m ∈ b.messages, m.body = body) ∨ done body

variable {done done' : α → Prop} {b : Mailbox α} {body : α} {k : Nat}

theorem mem_known {m : Message α} :
    m ∈ b.known ↔ m ∈ b.messages ∨ ∃ c ∈ b.consumers, m ∈ c.batch := by
  simp [known]

theorem known_of_subset {b' : Mailbox α} (hmessages : b'.messages ⊆ b.messages)
    (hconsumers : b'.consumers ⊆ b.consumers) : b'.known ⊆ b.known := by
  intro m hm
  rcases mem_known.mp hm with hm | ⟨c, hc, hm⟩
  · exact mem_known.mpr (.inl (hmessages hm))
  · exact mem_known.mpr (.inr ⟨c, hconsumers hc, hm⟩)

theorem valid_empty : (empty : Mailbox α).Valid done :=
  ⟨by simp [empty, known], by simp [empty, known], by simp [empty], by simp [empty]⟩

theorem Valid.mono (h : b.Valid done) (hdone : ∀ body, done body → done' body) : b.Valid done' :=
  ⟨h.fresh, h.ids, h.todo, fun c hc m hm => (h.behind c hc m hm).imp id (hdone _)⟩

/-- An operation that only forgets messages and consumers. -/
theorem Valid.of_subset {b' : Mailbox α} (h : b.Valid done) (hsent : b'.sent = b.sent)
    (hmessages : b'.messages ⊆ b.messages) (hconsumers : b'.consumers ⊆ b.consumers) :
    b'.Valid done := by
  have hknown := known_of_subset hmessages hconsumers
  exact ⟨fun m hm => hsent ▸ h.fresh m (hknown hm),
    fun m hm m' hm' => h.ids m (hknown hm) m' (hknown hm'),
    fun c hc => h.todo c (hconsumers hc), fun c hc => h.behind c (hconsumers hc)⟩

theorem mem_known_send {m : Message α} :
    m ∈ (b.send body).known ↔ m ∈ b.known ∨ m = ⟨b.sent, body⟩ := by
  rw [mem_known, mem_known, or_right_comm]
  simp only [send, List.mem_append, List.mem_singleton]

theorem Valid.send (h : b.Valid done) (body : α) : (b.send body).Valid done := by
  refine ⟨fun m hm => ?_, fun m hm m' hm' hid => ?_, h.todo, h.behind⟩
  · rcases mem_known_send.mp hm with hm | rfl
    · exact Nat.lt_succ_of_lt (h.fresh m hm)
    · exact Nat.lt_succ_self _
  · rcases mem_known_send.mp hm with hm | rfl <;> rcases mem_known_send.mp hm' with hm' | rfl
    · exact h.ids m hm m' hm' hid
    · exact absurd hid (Nat.ne_of_lt (h.fresh m hm))
    · exact absurd hid.symm (Nat.ne_of_lt (h.fresh m' hm'))
    · rfl

theorem Valid.sendAll (h : b.Valid done) (bodies : List α) : (b.sendAll bodies).Valid done := by
  induction bodies generalizing b with
  | nil => exact h
  | cons body bodies ih => exact ih (h.send body)

theorem mem_of_find? {id : Nat} {m : Message α} (h : b.find? id = some m) : m ∈ b.messages :=
  List.mem_of_find?_eq_some h

theorem receive_subset (b : Mailbox α) (ids : List Nat) :
    ids.filterMap b.find? ⊆ b.messages := by
  intro m hm
  obtain ⟨id, -, hid⟩ := List.mem_filterMap.mp hm
  exact mem_of_find? hid

theorem mem_known_receive {ids : List Nat} {m : Message α} :
    m ∈ (b.receive ids).known ↔ m ∈ b.known := by
  have hsub := @receive_subset α b ids m
  simp only [mem_known, receive, List.mem_append, List.mem_singleton]
  constructor
  · rintro (hm | ⟨c, hc | rfl, hm⟩)
    · exact .inl hm
    · exact .inr ⟨c, hc, hm⟩
    · exact .inl (hsub hm)
  · rintro (hm | ⟨c, hc, hm⟩)
    · exact .inl hm
    · exact .inr ⟨c, .inl hc, hm⟩

theorem Valid.receive (h : b.Valid done) (ids : List Nat) : (b.receive ids).Valid done := by
  refine ⟨fun m hm => h.fresh m (mem_known_receive.mp hm),
    fun m hm m' hm' => h.ids m (mem_known_receive.mp hm) m' (mem_known_receive.mp hm'),
    fun c hc => ?_, fun c hc m hm => ?_⟩
  all_goals rcases List.mem_append.mp hc with hc | hc
  · exact h.todo c hc
  · obtain rfl := List.mem_singleton.mp hc
    exact List.Subset.refl _
  · exact h.behind c hc m hm
  · obtain rfl := List.mem_singleton.mp hc
    exact .inl hm

theorem mem_modify {l : List α} {f : α → α} {a : α} (h : a ∈ l.modify k f) :
    a ∈ l ∨ ∃ a' ∈ l[k]?, a = f a' := by
  obtain ⟨i, hi⟩ := List.mem_iff_getElem?.mp h
  rw [List.getElem?_modify] at hi
  obtain ⟨a', ha', rfl⟩ := Option.map_eq_some_iff.mp hi
  split_ifs with hik
  · exact .inr ⟨a', hik ▸ ha', rfl⟩
  · exact .inl (List.mem_of_getElem? ha')

theorem mem_advance {c : Consumer α} (h : c ∈ (b.advance k).consumers) :
    c ∈ b.consumers ∨ ∃ c' ∈ b.consumers[k]?, c = { c' with todo := c'.todo.tail } := mem_modify h

theorem advance_batch {c : Consumer α} (h : c ∈ (b.advance k).consumers) :
    ∃ c' ∈ b.consumers, c.batch = c'.batch := by
  rcases mem_advance h with hc | ⟨c', hc', rfl⟩
  · exact ⟨c, hc, rfl⟩
  · exact ⟨c', List.mem_of_getElem? hc', rfl⟩

theorem known_advance {m : Message α} (hm : m ∈ (b.advance k).known) : m ∈ b.known := by
  rcases mem_known.mp hm with hm | ⟨c, hc, hm⟩
  · exact mem_known.mpr (.inl hm)
  · obtain ⟨c', hc', hbatch⟩ := advance_batch hc
    exact mem_known.mpr (.inr ⟨c', hc', hbatch ▸ hm⟩)

/-- The message that the consumer leaves behind is done. -/
theorem Valid.advance (h : b.Valid done)
    (hdone : ∀ c ∈ b.consumers[k]?, ∀ m ∈ c.todo.head?, done m.body) :
    (b.advance k).Valid done := by
  refine ⟨fun m hm => h.fresh m (known_advance hm),
    fun m hm m' hm' => h.ids m (known_advance hm) m' (known_advance hm'), fun c hc => ?_,
    fun c hc m hm => ?_⟩
  all_goals rcases mem_advance hc with hc | ⟨c', hc', rfl⟩
  · exact h.todo c hc
  · exact fun m hm => h.todo c' (List.mem_of_getElem? hc') (List.mem_of_mem_tail hm)
  · exact h.behind c hc m hm
  · rcases h.behind c' (List.mem_of_getElem? hc') m hm with htodo | hm
    · have hnext := hdone c' hc'
      cases ht : c'.todo with
      | nil => simp [ht] at htodo
      | cons a rest =>
        rw [ht] at htodo hnext
        rcases List.mem_cons.mp htodo with rfl | hrest
        · exact .inr (hnext _ rfl)
        · exact .inl hrest
    · exact .inr hm

theorem Valid.dismiss (h : b.Valid done) (k : Nat) : (b.dismiss k).Valid done :=
  h.of_subset rfl (List.Subset.refl _) (List.eraseIdx_subset)

theorem Valid.remove (h : b.Valid done) (ids : List Nat) : (b.remove ids).Valid done :=
  h.of_subset rfl (List.filter_subset_self _) (List.Subset.refl _)

-- ---------------------------------------------------------------------------
-- No body is lost
-- ---------------------------------------------------------------------------

theorem Holds.mono (h : b.Holds done body) (hdone : ∀ body, done body → done' body) :
    b.Holds done' body := h.imp id (hdone body)

theorem Holds.of_messages {b' : Mailbox α} (h : b.Holds done body)
    (hsub : b.messages ⊆ b'.messages) : b'.Holds done body :=
  h.imp (fun ⟨m, hm, hbody⟩ => ⟨m, hsub hm, hbody⟩) id

theorem messages_sendAll (b : Mailbox α) (bodies : List α) :
    b.messages ⊆ (b.sendAll bodies).messages := by
  induction bodies generalizing b with
  | nil => exact List.Subset.refl _
  | cons body bodies ih => exact List.Subset.trans (List.subset_append_left ..) (ih (b.send body))

theorem sent_sendAll (b : Mailbox α) (bodies : List α) : b.sent ≤ (b.sendAll bodies).sent := by
  induction bodies generalizing b with
  | nil => exact Nat.le_refl _
  | cons body bodies ih => exact Nat.le_trans (Nat.le_succ _) (ih (b.send body))

theorem mem_sendAll {bodies : List α} (h : body ∈ bodies) :
    ∃ m ∈ (b.sendAll bodies).messages, b.sent ≤ m.id ∧ m.body = body := by
  induction bodies generalizing b with
  | nil => exact nomatch h
  | cons body' bodies ih =>
    rcases List.mem_cons.mp h with rfl | h
    · refine ⟨⟨b.sent, body⟩, messages_sendAll _ bodies ?_, Nat.le_refl _, rfl⟩
      simp [send]
    · obtain ⟨m, hm, hid, hbody⟩ := ih (b := b.send body') h
      exact ⟨m, hm, Nat.le_of_succ_le hid, hbody⟩

theorem holds_sendAll {bodies : List α} (h : body ∈ bodies) :
    (b.sendAll bodies).Holds done body := by
  obtain ⟨m, hm, -, hbody⟩ := mem_sendAll (b := b) h
  exact .inl ⟨m, hm, hbody⟩

/-- A consumer that is through with its batch takes nothing away that is not done. -/
theorem Holds.remove (h : b.Holds done body) (hb : b.Valid done) {c : Consumer α}
    (hc : c ∈ b.consumers) (htodo : c.todo = []) :
    (b.remove (c.batch.map (·.id))).Holds done body := by
  rcases h with ⟨m, hm, rfl⟩ | hdone
  · by_cases hid : m.id ∈ c.batch.map (·.id)
    · obtain ⟨m', hm', he⟩ := List.mem_map.mp hid
      obtain rfl := hb.ids m' (mem_known.mpr (.inr ⟨c, hc, hm'⟩)) m (mem_known.mpr (.inl hm)) he
      refine .inr ((hb.behind c hc m' hm').resolve_left ?_)
      simp [htodo]
    · exact .inl ⟨m, List.mem_filter.mpr ⟨hm, by simpa using hid⟩, rfl⟩
  · exact .inr hdone

-- ---------------------------------------------------------------------------
-- Where the bodies come from
-- ---------------------------------------------------------------------------

def All (P : α → Prop) (b : Mailbox α) : Prop := ∀ m ∈ b.known, P m.body

variable {P : α → Prop}

theorem all_empty : (empty : Mailbox α).All P := by simp [All, empty, known]

theorem All.mono {Q : α → Prop} (h : b.All P) (hPQ : ∀ body, P body → Q body) : b.All Q :=
  fun m hm => hPQ _ (h m hm)

theorem All.of_known {b' : Mailbox α} (h : b.All P) (hsub : b'.known ⊆ b.known) : b'.All P :=
  fun m hm => h m (hsub hm)

theorem All.sendAll {bodies : List α} (h : b.All P) (hbodies : ∀ body ∈ bodies, P body) :
    (b.sendAll bodies).All P := by
  induction bodies generalizing b with
  | nil => exact h
  | cons body bodies ih =>
    obtain ⟨hbody, hbodies⟩ := List.forall_mem_cons.mp hbodies
    refine ih (fun m hm => ?_) hbodies
    rcases mem_known_send.mp hm with hm | rfl
    · exact h m hm
    · exact hbody

end Mailbox

end Beeflow
