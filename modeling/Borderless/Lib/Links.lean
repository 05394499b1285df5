import Borderless.Lib.LastWrite

/-!
# Links between ports

A link joins two different ports, each of which holds the other one. A new link takes over its two
ports from whatever they were linked to before, and leaves the other ends of those alone. The links
of a list are mutual, so that each port's partner has that port as its partner, exactly when every
link of the list either keeps both of its ports or has lost both.
-/

namespace Links

open LastWrite

variable {π : Type*} [DecidableEq π]

/-- What a list of links writes: each port of a link gets the other one. -/
def writes (l : List (π × π)) : List (π × π) := l.flatMap fun a => [(a.1, a.2), (a.2, a.1)]

/-- The partner of a port. -/
def partner (l : List (π × π)) (p : π) : Option π := lastWrite p (writes l)

/-- A link of the list takes the port. -/
def Taken (p : π) (l : List (π × π)) : Prop := ∃ a ∈ l, p = a.1 ∨ p = a.2

instance (p : π) (l : List (π × π)) : Decidable (Taken p l) :=
  inferInstanceAs (Decidable (∃ _ ∈ _, _))

variable {l : List (π × π)} {p q : π}

omit [DecidableEq π] in
/-- The writes of two sequences of links. -/
theorem writes_append (l l' : List (π × π)) : writes (l ++ l') = writes l ++ writes l' :=
  List.flatMap_append

omit [DecidableEq π] in
/-- A link writes both of its ports. -/
theorem mem_writes {w : π × π} : w ∈ writes l ↔ ∃ a ∈ l, w = a ∨ w = (a.2, a.1) := by
  simp [writes]

/-- One more link. -/
theorem partner_concat (a : π × π) :
    partner (l ++ [a]) p =
      if a.2 = p then some a.1 else if a.1 = p then some a.2 else partner l p := by
  unfold partner
  rw [writes_append]
  show lastWrite p (_ ++ ([(a.1, a.2)] ++ [(a.2, a.1)])) = _
  rw [← List.append_assoc, lastWrite_concat, lastWrite_concat]

omit [DecidableEq π] in
/-- The ports that are written are those that a link takes. -/
theorem taken_iff : Taken p l ↔ ∃ w ∈ writes l, w.1 = p := by
  constructor
  · rintro ⟨a, ha, rfl | rfl⟩
    · exact ⟨a, mem_writes.2 ⟨a, ha, .inl rfl⟩, rfl⟩
    · exact ⟨(a.2, a.1), mem_writes.2 ⟨a, ha, .inr rfl⟩, rfl⟩
  · rintro ⟨w, hw, rfl⟩
    obtain ⟨a, ha, rfl | rfl⟩ := mem_writes.1 hw
    · exact ⟨w, ha, .inl rfl⟩
    · exact ⟨a, ha, .inr rfl⟩

/-- A port has a partner when a link takes it. -/
theorem partner_eq_none_iff : partner l p = none ↔ ¬ Taken p l := by
  unfold partner
  rw [lastWrite_eq_none_iff, taken_iff]
  push Not
  rfl

/-- Later links leave the partner of a port that they do not take alone. -/
theorem partner_append_of_not_taken {l' : List (π × π)} (h : ¬ Taken p l') :
    partner (l ++ l') p = partner l p := by
  have hnone : partner l' p = none := partner_eq_none_iff.2 h
  unfold partner at hnone ⊢
  rw [writes_append, lastWrite_append, hnone, Option.none_or]

/-- A port has its partner from the last link that takes it. -/
theorem partner_eq_some (h : partner l p = some q) :
    ∃ pre a post, l = pre ++ a :: post ∧ (a = (p, q) ∨ a = (q, p)) ∧ ¬ Taken p post := by
  induction l using List.reverseRecOn with
  | nil => cases h
  | append_singleton l a ih =>
    rw [partner_concat] at h
    split_ifs at h with hsnd hfst
    · obtain rfl := Option.some.inj h
      exact ⟨l, a, [], rfl, .inr (by rw [← hsnd]), by simp [Taken]⟩
    · obtain rfl := Option.some.inj h
      exact ⟨l, a, [], rfl, .inl (by rw [← hfst]), by simp [Taken]⟩
    · obtain ⟨pre, b, post, rfl, hb, htaken⟩ := ih h
      refine ⟨pre, b, post ++ [a], by simp, hb, ?_⟩
      rintro ⟨c, hc, hp⟩
      rcases List.mem_append.1 hc with hc | hc
      · exact htaken ⟨c, hc, hp⟩
      · obtain rfl := List.mem_singleton.1 hc
        rcases hp with rfl | rfl
        · exact hfst rfl
        · exact hsnd rfl

/-- A port that later links take has its partner from them. -/
theorem partner_append_of_taken {l' : List (π × π)} (h : Taken p l') :
    partner (l ++ l') p = partner l' p := by
  have hsome : partner l' p ≠ none := fun hnone => partner_eq_none_iff.1 hnone h
  obtain ⟨q, hq⟩ := Option.ne_none_iff_exists'.1 hsome
  unfold partner at hq ⊢
  rw [writes_append, lastWrite_append, hq, Option.some_or]

/-- A partner is taken as well. -/
theorem taken_of_partner (h : partner l p = some q) : Taken q l := by
  obtain ⟨pre, a, post, rfl, ha, -⟩ := partner_eq_some h
  rcases ha with rfl | rfl
  · exact ⟨(p, q), by simp, .inr rfl⟩
  · exact ⟨(q, p), by simp, .inl rfl⟩

/-- A link holds both of its ports, as long as no later link takes them. -/
theorem partner_middle (pre post : List (π × π)) {a : π × π} (ha : a.1 ≠ a.2) :
    (¬ Taken a.1 post → partner (pre ++ a :: post) a.1 = some a.2) ∧
      (¬ Taken a.2 post → partner (pre ++ a :: post) a.2 = some a.1) := by
  have hsplit : pre ++ a :: post = (pre ++ [a]) ++ post := by simp
  rw [hsplit]
  constructor
  · intro h
    rw [partner_append_of_not_taken h, partner_concat, if_neg (Ne.symm ha), if_pos rfl]
  · intro h
    rw [partner_append_of_not_taken h, partner_concat, if_pos rfl]

/-- Each port's partner has that port as its partner. -/
def Mutual (l : List (π × π)) : Prop := ∀ p q, partner l p = some q → partner l q = some p

/-- Of a link that has lost one of its ports to a later link, the other is lost as well. -/
def Whole (l : List (π × π)) : Prop :=
  ∀ pre a post, l = pre ++ a :: post → (Taken a.1 post ↔ Taken a.2 post)

/-- The links of a list are mutual if and only if none of them holds one of its ports only. -/
theorem mutual_iff_whole (hne : ∀ a ∈ l, a.1 ≠ a.2) : Mutual l ↔ Whole l := by
  constructor
  · rintro h pre a post rfl
    have ha : a.1 ≠ a.2 := hne a (by simp)
    obtain ⟨hfst, hsnd⟩ := partner_middle pre post ha
    -- a later link that gives `p` the partner `q` takes `q` too
    have hlast : ∀ {p q : π}, Taken p post → partner (pre ++ a :: post) p = some q →
        Taken q post := by
      intro p q hp hpartner
      rw [List.append_cons, partner_append_of_taken hp] at hpartner
      exact taken_of_partner hpartner
    constructor
    · intro htaken
      by_contra hkept
      exact hkept (hlast htaken (h _ _ (hsnd hkept)))
    · intro htaken
      by_contra hkept
      exact hkept (hlast htaken (h _ _ (hfst hkept)))
  · intro h p q hpartner
    obtain ⟨pre, a, post, rfl, ha, htaken⟩ := partner_eq_some hpartner
    have hne' : a.1 ≠ a.2 := hne a (by simp)
    obtain ⟨hfst, hsnd⟩ := partner_middle pre post hne'
    have hiff := h pre a post rfl
    rcases ha with rfl | rfl
    · exact hsnd fun hq => htaken (hiff.2 hq)
    · exact hfst fun hq => htaken (hiff.1 hq)

end Links
