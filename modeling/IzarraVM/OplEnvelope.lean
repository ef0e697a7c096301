import IzarraVM.OplChip

/-! The envelope generators, however the registers are rewritten between samples. -/
namespace IzarraVM.Opl
open Function (update)

inductive KeyMove : Bool → EgState → EgState → Prop
  | on : KeyMove true .release .attack
  | off (s : EgState) (h : s ≠ .release) : KeyMove false s .release
  | held (key : Bool) (s : EgState) (h : key = true ↔ s ≠ .release) : KeyMove key s s

inductive Follows : EgState → EgState → Prop
  | decay : Follows .attack .decay
  | sustain : Follows .decay .sustain

structure Advanced (op op' : Operator) (mid : EgState) : Prop where
  key : KeyMove op'.keyOn op.egState mid
  stage : op'.egState = mid ∨ Follows mid op'.egState
  range : op'.egLevel ≤ 0x1ff
  louder : op'.egLevel < op.egLevel → mid = .attack ∨
    mid = .decay ∧ op'.egState = .sustain ∧ op'.egLevel = op'.sustainTarget

namespace Operator

variable {op : Operator}

theorem keyMove_keyed (op : Operator) : KeyMove op.keyOn op.egState op.keyed.egState := by
  obtain ⟨_, _, _, _, _, _, _, _, keyOn, _, stage⟩ := op
  cases keyOn with
  | true =>
    cases stage with
    | release => exact .on
    | attack | decay | sustain => exact .held _ _ (by simp)
  | false =>
    cases stage with
    | release => exact .held _ _ (by simp)
    | attack | decay | sustain => exact .off _ (by simp)

/-- The key changes nothing but the stage. -/
theorem keyed_eq (op : Operator) : ∃ s, op.keyed = { op with egState := s } := by
  unfold keyed
  split
  exacts [⟨_, rfl⟩, ⟨_, rfl⟩, ⟨_, rfl⟩]

theorem louder_le (turns level : ℕ) : louder turns level ≤ level := by
  induction turns generalizing level with
  | zero => exact le_refl _
  | succ turns ih =>
    rw [louder]
    split_ifs
    · exact Nat.zero_le _
    · exact (ih _).trans (Nat.sub_le _ _)

theorem sustainTarget_le (hsustain : op.sustain ≤ 0x0f) : op.sustainTarget ≤ 0x1ff := by
  unfold sustainTarget
  split_ifs
  · decide
  · rw [Nat.shiftLeft_eq]
    omega

section Stages

variable (counter : ℕ) (noteSelect : Bool)

theorem envelope_attack (h : op.egState = .attack) :
    ∃ level ≤ op.egLevel, op.envelope counter noteSelect =
      { op with egLevel := level, egState := if level = 0 then .decay else .attack } := by
  unfold envelope
  simp only [h]
  refine ⟨_, ?_, rfl⟩
  split_ifs
  · exact Nat.zero_le _
  · exact louder_le _ _

theorem envelope_decay (h : op.egState = .decay) :
    op.envelope counter noteSelect = { op with egLevel := op.sustainTarget, egState := .sustain } ∨
      ∃ inc, op.envelope counter noteSelect = { op with egLevel := min (op.egLevel + inc) 0x1ff } := by
  unfold envelope
  simp only [h]
  split_ifs
  · exact .inl rfl
  · exact .inr ⟨_, rfl⟩

theorem envelope_late (h : op.egState = .sustain ∨ op.egState = .release) :
    op.envelope counter noteSelect = op ∨
      ∃ inc, op.envelope counter noteSelect = { op with egLevel := min (op.egLevel + inc) 0x1ff } := by
  unfold envelope
  rcases h with h | h <;> simp only [h]
  · split_ifs
    · exact .inl rfl
    · exact .inr ⟨_, rfl⟩
  · exact .inr ⟨_, rfl⟩

theorem advanced_envelope (op : Operator) {op₀ : Operator} (hkey : KeyMove op.keyOn op₀.egState op.egState)
    (hlevel : op.egLevel = op₀.egLevel) (hrange : op.egLevel ≤ 0x1ff) (hsustain : op.sustain ≤ 0x0f) :
    Advanced op₀ (op.envelope counter noteSelect) op.egState := by
  -- Out of the attack the level only rises, up to its bound.
  have hrise (inc : ℕ) : ¬ min (op.egLevel + inc) 0x1ff < op₀.egLevel := by omega
  cases hstage : op.egState with
  | attack =>
    obtain ⟨level, hle, heq⟩ := envelope_attack counter noteSelect hstage
    rw [hstage] at hkey
    rw [heq]
    refine ⟨hkey, ?_, hle.trans hrange, fun _ => .inl rfl⟩
    by_cases hzero : level = 0
    · exact .inr (by simp only [if_pos hzero]; exact .decay)
    · exact .inl (if_neg hzero)
  | decay =>
    rw [hstage] at hkey
    rcases envelope_decay counter noteSelect hstage with heq | ⟨inc, heq⟩ <;> rw [heq]
    · exact ⟨hkey, .inr .sustain, sustainTarget_le hsustain, fun _ => .inr ⟨rfl, rfl, rfl⟩⟩
    · exact ⟨hkey, .inl hstage, min_le_right _ _, fun h => absurd h (hrise inc)⟩
  | sustain | release =>
    rw [hstage] at hkey
    rcases envelope_late counter noteSelect
        (show op.egState = .sustain ∨ op.egState = .release by simp [hstage]) with heq | ⟨inc, heq⟩ <;> rw [heq]
    · exact ⟨hkey, .inl hstage, hrange, fun h => absurd h (by omega)⟩
    · exact ⟨hkey, .inl hstage, min_le_right _ _, fun h => absurd h (hrise inc)⟩

/-- An advance of `op`, which has the level and the stage of `op₀`. -/
theorem advanced {op₀ : Operator} (hlevel : op.egLevel = op₀.egLevel)
    (hstage : op.egState = op₀.egState) (hrange : op₀.egLevel ≤ 0x1ff) (hsustain : op.sustain ≤ 0x0f) :
    Advanced op₀ (op.advanceEnvelope counter noteSelect) op.keyed.egState := by
  have hkey := op.keyMove_keyed
  obtain ⟨s, hs⟩ := op.keyed_eq
  rw [hstage, hs] at hkey
  rw [advanceEnvelope, hs]
  exact advanced_envelope counter noteSelect { op with egState := s } hkey hlevel (hlevel ▸ hrange) hsustain

end Stages

end Operator

namespace OplChip

variable {c : OplChip} {ops : List (Fin 36)} {f : Fin 36 → Operator → Operator}

/-- Operators in turn are operators at once where none comes twice. -/
theorem each_operators (hops : ops.Nodup) (i : Fin 36) :
    (c.each ops f).operators i = if i ∈ ops then f i (c.operators i) else c.operators i := by
  unfold each
  induction ops generalizing c with
  | nil => rfl
  | cons j ops ih =>
    obtain ⟨hj, hops⟩ := List.nodup_cons.mp hops
    rw [List.foldl_cons, ih hops]
    by_cases hij : i = j
    · subst hij
      rw [if_neg hj, if_pos List.mem_cons_self]
      exact Function.update_self ..
    · simp only [List.mem_cons, hij, false_or]
      rw [show update c.operators j _ i = c.operators i from Function.update_of_ne hij ..]

def Sampled (op op' : Operator) : Prop :=
  ∃ loaded : Operator, loaded.egLevel = op.egLevel ∧ loaded.egState = op.egState ∧
    loaded.sustain ≤ 0x0f ∧
      ∃ counter noteSelect, op' = loaded.advanceEnvelope counter noteSelect

theorem Sampled.advanced {op op' : Operator} (h : Sampled op op') (hrange : op.egLevel ≤ 0x1ff) :
    ∃ mid, Advanced op op' mid := by
  obtain ⟨loaded, hlevel, hstage, hsustain, counter, noteSelect, rfl⟩ := h
  exact ⟨_, Operator.advanced counter noteSelect hlevel hstage hrange hsustain⟩

theorem loadOperator_sustain (channel : Fin 18) (i : Fin 36) (op : Operator) :
    (c.loadOperator channel i op).sustain ≤ 0x0f := by
  have hnibble (b : UInt8) : (b >>> 4).toNat ≤ 0x0f := by
    have := b.toNat_lt
    rw [UInt8.toNat_shiftRight, Nat.shiftRight_eq_div_pow]
    show b.toNat / 2 ^ 4 ≤ 0x0f
    omega
  exact hnibble _

def Samples (c c' : OplChip) (ops : List (Fin 36)) : Prop :=
  ∀ i, if i ∈ ops then Sampled (c.operators i) (c'.operators i)
    else c'.operators i = c.operators i

variable {channel : Fin 18}

theorem samples_renderChannel (hops : (c.voice channel).Nodup) :
    c.Samples (c.renderChannel channel) (c.voice channel) := by
  intro i
  rw [renderChannel, each_operators hops, each_operators hops]
  split_ifs with hi
  · exact ⟨c.loadOperator channel i (c.operators i), rfl, rfl, loadOperator_sustain .., _, _, rfl⟩
  · rfl

theorem samples_renderRhythm : c.Samples c.renderRhythm rhythmOps := by
  intro i
  have hops : rhythmOps.Nodup := by decide
  rw [renderRhythm, each_operators hops, each_operators hops, each_operators hops]
  split_ifs with hi
  · refine ⟨{ c.loadOperator ⟨6 + (i.val - 12) % 3, by omega⟩ i (c.operators i) with
      keyOn := rhythmKey (c.registers 0 0xbd) i }, rfl, rfl, ?_, _, _, rfl⟩
    exact loadOperator_sustain _ _ (c.operators i)
  · rfl

theorem Samples.trans {c' c'' : OplChip} {ops ops' : List (Fin 36)} (h : c.Samples c' ops)
    (h' : c'.Samples c'' ops') (hdisjoint : ops.Disjoint ops') : c.Samples c'' (ops ++ ops') := by
  intro i
  have hi := h i
  have hi' := h' i
  by_cases hfirst : i ∈ ops
  · rw [if_pos hfirst] at hi
    rw [if_neg (hdisjoint hfirst)] at hi'
    rw [if_pos (List.mem_append_left _ hfirst), hi']
    exact hi
  · rw [if_neg hfirst] at hi
    rw [hi] at hi'
    simpa only [List.mem_append, hfirst, false_or] using hi'

theorem samples_channels {channels : List (Fin 18)} (hops : (channels.flatMap c.voice).Nodup) :
    c.Samples (channels.foldl renderChannel c) (channels.flatMap c.voice) := by
  induction channels generalizing c with
  | nil =>
    intro i
    rfl
  | cons channel rest ih =>
    rw [List.flatMap_cons, List.nodup_append'] at hops
    obtain ⟨hfirst, hrest, hdisjoint⟩ := hops
    have hvoice : (c.renderChannel channel).voice = c.voice := by
      obtain ⟨operators, h⟩ := c.renderChannel_eq channel
      rw [h]
      rfl
    have hchannels := ih (c := c.renderChannel channel)
    rw [hvoice] at hchannels
    rw [List.foldl_cons, List.flatMap_cons]
    exact (samples_renderChannel hfirst).trans (hchannels hrest) hdisjoint

def owner (i : Fin 36) : Fin 18 := ⟨i.val / 18 * 9 + i.val % 18 / 6 * 3 + i.val % 18 % 3, by omega⟩

theorem owner_channelOperators : ∀ channel, owner (channelOperators channel).1 = channel ∧
    owner (channelOperators channel).2 = channel := by
  decide

theorem fourOpPrimary_mem {mask : UInt8} (h : fourOpPrimary channel mask = true) :
    channel ∈ fourOpPrimaries := by
  unfold fourOpPrimary at h
  split at h
  · rename_i bit hbit
    exact List.isSome_idxOf?.mp (by rw [hbit]; rfl)
  · cases h

theorem mem_voice {i : Fin 36} (h : i ∈ c.voice channel) :
    owner i = channel ∨ fourOpPrimary channel c.fourOpMask = true ∧ owner i = channel + 3 := by
  have hown := owner_channelOperators channel
  have hsecond := owner_channelOperators (channel + 3)
  unfold voice at h
  split_ifs at h with hfour
  · simp only [List.mem_cons, List.not_mem_nil, or_false] at h
    rcases h with rfl | rfl | rfl | rfl
    exacts [.inl hown.1, .inl hown.2, .inr ⟨hfour, hsecond.1⟩, .inr ⟨hfour, hsecond.2⟩]
  · simp only [List.mem_cons, List.not_mem_nil, or_false] at h
    rcases h with rfl | rfl
    exacts [.inl hown.1, .inl hown.2]

theorem nodup_voice (channel : Fin 18) : (c.voice channel).Nodup := by
  have hall : ∀ channel : Fin 18, [(channelOperators channel).1, (channelOperators channel).2,
      (channelOperators (channel + 3)).1, (channelOperators (channel + 3)).2].Nodup := by
    decide
  unfold voice
  split_ifs
  · exact hall channel
  · exact (hall channel).sublist (List.sublist_append_left [_, _] [_, _])

/-- The second half of a voice that is rendered with its first. -/
theorem fourOpSecondary_add {mask : UInt8}
    (h : fourOpPrimary channel mask = true) : fourOpSecondary (channel + 3) mask = true := by
  have hlow : ∀ channel ∈ fourOpPrimaries, 3 ≤ channel + 3 := by decide
  rw [fourOpSecondary, add_sub_cancel_right, h, Bool.and_true]
  exact decide_eq_true (hlow channel (fourOpPrimary_mem h))

theorem disjoint_voices {a b : Fin 18} (hab : a ≠ b)
    (ha : fourOpSecondary a c.fourOpMask = false) (hb : fourOpSecondary b c.fourOpMask = false) :
    (c.voice a).Disjoint (c.voice b) := by
  intro i hia hib
  rcases mem_voice hia with ha' | ⟨hpa, ha'⟩ <;> rcases mem_voice hib with hb' | ⟨hpb, hb'⟩
  · exact hab (ha'.symm.trans hb')
  · rw [← ha', hb', fourOpSecondary_add hpb] at ha
    cases ha
  · rw [← hb', ha', fourOpSecondary_add hpa] at hb
    cases hb
  · exact hab (add_right_cancel (ha'.symm.trans hb'))

theorem disjoint_rhythm (h : ¬ (6 ≤ channel ∧ channel ≤ 8)) :
    (c.voice channel).Disjoint rhythmOps := by
  have howner : ∀ i ∈ rhythmOps, 6 ≤ owner i ∧ owner i ≤ 8 := by decide
  have hsecond : ∀ channel ∈ fourOpPrimaries, ¬ (6 ≤ channel + 3 ∧ channel + 3 ≤ 8) := by decide
  intro i hi hrhythm
  have hi' := howner i hrhythm
  rcases mem_voice hi with hown | ⟨hprimary, hown⟩ <;> rw [hown] at hi'
  · exact h hi'
  · exact hsecond channel (fourOpPrimary_mem hprimary) hi'

theorem mem_renderedChannels (h : channel ∈ c.renderedChannels) :
    fourOpSecondary channel c.fourOpMask = false ∧
      (c.rhythmEnabled = true → ¬ (6 ≤ channel ∧ channel ≤ 8)) := by
  have hkeep := (List.mem_filter.mp h).2
  simp only [Bool.and_eq_true, Bool.not_eq_true', Bool.and_eq_false_iff,
    decide_eq_false_iff_not] at hkeep
  refine ⟨hkeep.2, fun hrhythm hmid => ?_⟩
  rcases hkeep.1 with (hno | hno) | hno
  · exact absurd hrhythm (by rw [hno]; exact Bool.false_ne_true)
  · exact hno hmid.1
  · exact hno hmid.2

theorem nodup_channels : (c.renderedChannels.flatMap c.voice).Nodup := by
  rw [List.nodup_flatMap]
  refine ⟨fun channel _ => nodup_voice channel, ?_⟩
  have hnodup : c.renderedChannels.Nodup :=
    (((List.nodup_finRange 18).sublist (List.take_sublist _ _)).filter _)
  exact hnodup.pairwise_of_forall_ne fun a ha b hb hab =>
    disjoint_voices hab (mem_renderedChannels ha).1 (mem_renderedChannels hb).1

/-- A sample takes every operator through at most one advance. -/
theorem sampled_renderSample (c : OplChip) (i : Fin 36) :
    c.renderSample.operators i = c.operators i ∨
      Sampled (c.operators i) (c.renderSample.operators i) := by
  set next : OplChip := { c with egCounter := (c.egCounter + 1) % 2 ^ 32 } with hnext
  have hchannels := samples_channels (c := next) nodup_channels
  have hall : ∃ ops, next.Samples c.renderSample ops := by
    rw [renderSample]
    simp only [← hnext]
    split_ifs with hrhythm
    · refine ⟨_, hchannels.trans samples_renderRhythm ?_⟩
      intro j hj
      obtain ⟨channel, hc, hj⟩ := List.mem_flatMap.mp hj
      exact disjoint_rhythm ((mem_renderedChannels hc).2 hrhythm) hj
    · exact ⟨_, hchannels⟩
  obtain ⟨ops, hops⟩ := hall
  have hi := hops i
  split_ifs at hi
  · exact .inr hi
  · exact .inl hi

end OplChip

theorem operators_step (c : OplChip) (e : Event) (i : Fin 36) :
    (c.step e).operators i = c.operators i ∨
      OplChip.Sampled (c.operators i) ((c.step e).operators i) := by
  cases e with
  | write bank index value =>
    left
    show (c.writeBank bank index value).operators i = _
    unfold OplChip.writeBank
    split_ifs <;> rfl
  | advance micros => exact .inl rfl
  | sample => exact c.sampled_renderSample i

theorem egLevel_le (events : List Event) (i : Fin 36) :
    ((Runs.exec OplChip.step events .default).operators i).egLevel ≤ 0x1ff := by
  refine List.foldlRecOn (motive := fun c : OplChip => (c.operators i).egLevel ≤ 0x1ff) events
    OplChip.step (le_refl 0x1ff) fun c h e _ => ?_
  rcases operators_step c e i with hsame | hsampled
  · rw [hsame]
    exact h
  · obtain ⟨mid, hadvanced⟩ := hsampled.advanced h
    exact hadvanced.range

/-- However registers are written between samples, an envelope's attenuation stays in range, a
step of the chip leaves it alone or advances it once, and it gets louder only in the attack or
when the decay is met by a sustain level already passed. -/
theorem envelope_lawful (events : List Event) (e : Event) (i : Fin 36) :
    let c := Runs.exec OplChip.step events .default
    (c.operators i).egLevel ≤ 0x1ff ∧
      ((c.step e).operators i = c.operators i ∨
        ∃ mid, Advanced (c.operators i) ((c.step e).operators i) mid) := by
  intro c
  have hrange := egLevel_le events i
  exact ⟨hrange, (operators_step c e i).imp_right fun h => h.advanced hrange⟩

/-- A decay on its way to silence, and a sustain level of 0 written under it. -/
theorem louder_in_decay :
    let c := Runs.exec OplChip.step [.write 0 0x60 0xff, .write 0 0x80 0xff, .write 0 0xb0 0x20,
      .sample, .sample, .sample, .write 0 0x80 0x0f] .default
    let op := c.operators 0
    let op' := c.renderSample.operators 0
    op.egState = .decay ∧ op'.egLevel < op.egLevel ∧ op.keyOn = true ∧ op'.keyOn = true := by
  decide +kernel

end IzarraVM.Opl
