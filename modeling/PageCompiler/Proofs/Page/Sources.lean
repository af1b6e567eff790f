import PageCompiler.Proofs.Page.Conservation
import PageCompiler.Proofs.Text.Casing

/-!
# Where keys come in

A run has a key from few sources. The copies that instances are made of get keys that nothing has,
and these are reserved, so a key comes in once: with what the run is given, or with one copy. The
wrapper of an instance gets such a key as well. It is not reserved, but it is registered in the end,
and no key is registered twice.

* `Call.Ends.sum_le`: a sum over the calls of a run against what the context gains.
* `Call.Ends.copies_le`: a key comes in with one copy at most, and is used then.
* `Call.Ends.generates_le`: a key is that of one element at most that is generated.
* `Call.Ends.count_trees_le`: an element in the trees of a run is the only one of its key there.
* `Call.Ends.colon_notMem`: the keys there have no colon.
-/

namespace PageCompiler

/-! ## Sums over runs -/

section Sums

variable {env : Environment} {c c' : Context} {call : Call} {calls : List Call} {f : Call → ℕ}
  {m : Context → ℕ}

/-- What the calls of a row add up to is what the context gains, if that holds for each of them. -/
theorem Threads.sum_le (hm : ∀ {c c' : Context}, c.Extends c' → m c ≤ m c')
    (ih : ∀ call ∈ calls, ∀ c', call.Ends env c' → f call + m call.context ≤ m c')
    (h : Threads env c calls c') : (calls.map f).sum + m c ≤ m c' := by
  induction h with
  | nil quiet =>
    rw [List.map_nil, List.sum_nil, Nat.zero_add]
    exact hm quiet.toExtends
  | @cons call rest c there c' quiet ends _ ih' =>
    have hquiet := hm quiet.toExtends
    have hcall := ih call List.mem_cons_self there ends
    have hrest := ih' fun call hcall => ih call (List.mem_cons_of_mem _ hcall)
    rw [List.map_cons, List.sum_cons]
    omega

/-- **What the calls of a run add up to** is at most what the context gains, if a call adds what the
context gains before the calls that it makes, and after them. -/
theorem Call.Ends.sum_le (hm : ∀ {c c' : Context}, c.Extends c' → m c ≤ m c')
    (hstep : ∀ {call : Call} {c' : Context}, call.Ends env c' → ∃ start there,
      Threads env start (call.made env) there ∧ f call + m call.context + m there ≤ m start + m c')
    (h : call.Ends env c') : ((call.finished env).map f).sum + m call.context ≤ m c' := by
  induction hfuel : call.fuel using Nat.strong_induction_on generalizing call c' with
  | h fuel ih =>
    obtain ⟨start, there, hthreads, hgains⟩ := hstep h
    have hinside := hthreads.sum_le (f := fun inner => ((inner.finished env).map f).sum) hm
      fun inner hinner _ hends => ih inner.fuel (hfuel ▸ (mem_made.1 hinner).fuel_lt) hends rfl
    rw [sum_finished]
    omega

/-- A sum over all calls that are made on the way. -/
theorem sum_made (env : Environment) (f : Call → ℕ) (call : Call) :
    ((call.finished env).map fun inner => ((inner.made env).map f).sum).sum + f call
      = ((call.finished env).map f).sum := by
  induction hfuel : call.fuel using Nat.strong_induction_on generalizing call with
  | h fuel ih =>
    have hinside : ((call.made env).map fun inner => ((inner.finished env).map f).sum).sum
        = ((call.made env).map fun inner => ((inner.finished env).map fun inner =>
            ((inner.made env).map f).sum).sum).sum + ((call.made env).map f).sum := by
      rw [← List.sum_map_add]
      refine congrArg List.sum (List.map_congr_left fun inner hinner => ?_)
      exact (ih inner.fuel (hfuel ▸ (mem_made.1 hinner).fuel_lt) inner rfl).symm
    rw [sum_finished, sum_finished f, hinside]

end Sums

/-! ## Copies -/

section Copies

variable {env : Environment} {key : String} {c c' : Context} {call : Call}

/-- One for a key that is used, and zero otherwise. -/
def Context.use (key : String) (c : Context) : ℕ := (c.isUsed key).toNat

theorem Context.use_eq_one (h : c.Used key) : c.use key = 1 := by
  rw [use, isUsed_iff.2 h]
  rfl

theorem Context.use_eq_zero (h : ¬ c.Used key) : c.use key = 0 := by
  rw [use, Bool.eq_false_iff.2 (mt isUsed_iff.1 h)]
  rfl

theorem Context.Extends.use_le (key : String) (h : c.Extends c') : c.use key ≤ c'.use key :=
  Bool.toNat_le_toNat fun hused => isUsed_iff.2 (h.used (isUsed_iff.1 hused))

/-- A key comes in with a copy once, if it was not used before, and is used when it is reserved. -/
theorem Context.use_reserve_copy (c : Context) (external : Component) (key : String) :
    keyCount key (c.instantiate external).node.elements + c.use key
      ≤ (c.reserve (c.instantiate external).node.keys).use key := by
  obtain ⟨-, hnodup, hnew⟩ := c.copy_tree external
  by_cases hmem : key ∈ (c.instantiate external).node.keys
  · have hcount : keyCount key (c.instantiate external).node.elements = 1 :=
      List.count_eq_one_of_mem hnodup hmem
    rw [hcount, use_eq_zero (hnew key hmem),
      use_eq_one (Or.inr ((reserved_reserve _).2 (Or.inl hmem)))]
  · have hcount : keyCount key (c.instantiate external).node.elements = 0 :=
      List.count_eq_zero_of_not_mem hmem
    rw [hcount, Nat.zero_add]
    exact (Extends.reserve c _).use_le key

/-- The calls that a call makes start when the keys of its copy are reserved. -/
theorem Call.Ends.copied_le (hplain : env.Plain) (h : call.Ends env c') (key : String) :
    ∃ start there, Threads env start (call.made env) there ∧
      keyCount key (call.copied env) + call.context.use key + there.use key
        ≤ start.use key + c'.use key := by
  rcases hexpanded : call.expanded? env with _ | external
  · obtain ⟨there, hthreads, hcloses⟩ := h.threads
    have hclosed := (hcloses.grows hplain).toExtends.use_le key
    refine ⟨call.context, there, hthreads, ?_⟩
    rw [copied, hexpanded]
    change 0 + _ + _ ≤ _
    omega
  rcases call with ⟨_ | _ | fuel, at', node | r | e, c⟩ <;> try cases hexpanded
  have he : e.isInstance := by
    by_contra he
    cases hexpanded.symm.trans (if_neg he)
  have hget : Dict.get? env.externals e.componentName = some external :=
    (if_pos he).symm.trans hexpanded
  obtain ⟨external', there, hexternal, hthreads, hcloses⟩ := instanceCalls_threads he h
  cases hget.symm.trans hexternal
  have hclosed := (hcloses.grows hplain).toExtends.use_le key
  have hreserved := c.use_reserve_copy external key
  have hcopied : Call.copied env ⟨fuel + 2, at', .element e, c⟩
      = (c.instantiate external).node.elements := by
    rw [Call.copied, hexpanded]
    exact List.flatMap_singleton _ _
  have hmade : Call.made env ⟨fuel + 2, at', .element e, c⟩ = instanceCalls env fuel at' e c :=
    if_pos he
  refine ⟨_, there, hmade ▸ hthreads, ?_⟩
  rw [hcopied]
  dsimp only
  omega

/-- **A key comes in with one copy at most.** It was not used before then, and is used from then on. -/
theorem Call.Ends.copies_le (hplain : env.Plain) (h : call.Ends env c') (key : String) :
    ((call.finished env).map fun inner => keyCount key (inner.copied env)).sum
        + call.context.use key ≤ c'.use key :=
  h.sum_le (Context.Extends.use_le key) fun hends => hends.copied_le hplain key

end Copies

/-! ## Elements that are generated -/

section Generated

variable {env : Environment} {key : String} {c c' : Context} {call : Call} {fuel : Nat}
  {at' : Surroundings} {e e' : Element} {id : Nat}

/-- One for a call that generates an element with a key, and zero for another one. -/
def Call.generates (key : String) (call : Call) : ℕ :=
  match call.task with
  | .element e => if e.key = key then 1 else 0
  | _ => 0

/-- One for a key that is registered, and zero otherwise. -/
def Context.holds (key : String) (c : Context) : ℕ := (Dict.contains c.lookup key).toNat

theorem Context.Extends.holds_le (key : String) (h : c.Extends c') : c.holds key ≤ c'.holds key :=
  Bool.toNat_le_toNat h.registered

theorem registerElement_ok {element : Element} {hierarchy : List String}
    (h : registerElement key element id hierarchy c = (.ok (), c')) : ¬ c.Registered key := by
  rcases registerElement_run key element id hierarchy c with ⟨hnew, -⟩ | ⟨-, d, -, hrun⟩
  · exact hnew
  · cases hrun.symm.trans h

/-- A tag is registered when all of its children are. -/
theorem tag_registers (he : e.isInstance = false)
    (h : generateElement env (fuel + 1) at' e c = ((e', .ok id), c')) : ∃ there,
      Threads env c (tagCalls env fuel at' e c) there ∧ there.Extends c' ∧
        ¬ there.Registered e.key := by
  rw [generateElement_tag env fuel at' c he] at h
  rcases hchildren : generateEach (generateNode env fuel at') e.children (c.noteDependency e) with
    ⟨⟨children, d | pieces⟩, there⟩
  · rw [hchildren] at h
    cases h
  rw [hchildren] at h
  dsimp only at h
  have hquiet := Context.Quiet.finishTag env at' { e with children } pieces there
  have hsnd : (finishTag env at' { e with children } pieces there).2 = c' := congrArg Prod.snd h
  refine ⟨there, (generateEach_threads hchildren).quiet_left (.noteDependency c e),
    hsnd ▸ hquiet.toExtends, fun hregistered => ?_⟩
  rw [finishTag_run] at h
  rcases hstyled : Element.settleStyles at'.definitions { e with children } with ⟨styled, d | _⟩
  · rw [hstyled] at h
    cases h
  have hkey : styled.key = e.key := by
    obtain ⟨_, _, -, rfl⟩ := Element.exists_of_settleStyles hstyled
    rfl
  rw [hstyled] at h
  dsimp only at h
  rcases hattrs : pageAttributes env.options env.folder at'.definitions styled.elementType
    styled.attrs with ⟨attrs, d | _⟩
  · rw [hattrs] at h
    cases h
  rw [hattrs] at h
  dsimp only at h
  rcases hregister : registerElement styled.key styled there.canvas.tags.size at'.hierarchy
    (createTag ⟨styled.elementType, attrs, pieces⟩ there).2 with ⟨d | _, c''⟩
  · rw [show registerElement _ _ (createTag _ there).1 _ _ = _ from hregister] at h
    cases h
  · exact registerElement_ok hregister (hkey ▸ hregistered)

/-- An instance is registered when its stages have run. -/
theorem instance_registers (he : e.isInstance = true)
    (h : generateElement env (fuel + 2) at' e c = ((e', .ok id), c')) : ∃ there,
      Threads env c (instanceCalls env fuel at' e c) there ∧
        Closes env ⟨fuel + 2, at', .element e, c⟩ there c' ∧ ¬ there.Registered e.key := by
  obtain ⟨external, there, hexternal, hthreads, hcloses⟩ :=
    instanceCalls_threads he (Call.ends_element.2 ⟨e', id, h⟩)
  refine ⟨there, hthreads.quiet_left (.reserve c _), hcloses, fun hregistered => ?_⟩
  cases hcloses with
  | quiet kind _ =>
    cases kind.symm.trans ((if_pos he).trans hexternal)
  | @stages _ _ _ wrapper entry id' _ _ styled _ _ entered generated run quiet =>
    rw [generateElement_instance env (fuel + 1) at' c he, expandInstance_entered entered,
      generated] at h
    unfold finishInstance at h
    dsimp only at h
    rw [run] at h
    dsimp only at h
    have hstyled : styled.Registered e.key := by
      have hextends := runInstanceStages_extends env (entry.styled wrapper) id' there
      rw [run] at hextends
      exact hextends.registered hregistered
    rcases hregister : registerElement e.key { e with children := [], attrs := entry.attrs } id'
      entry.inside.hierarchy styled with ⟨d | _, c''⟩
    · rw [hregister] at h
      cases h
    · exact registerElement_ok hregister hstyled

/-- An element that is generated is registered after all that it makes. -/
theorem Call.Ends.generated_le (hplain : env.Plain) (h : call.Ends env c') (key : String) :
    ∃ start there, Threads env start (call.made env) there ∧
      call.generates key + call.context.holds key + there.holds key
        ≤ start.holds key + c'.holds key := by
  -- what is left to show when the calls have ended
  have hrest : ∀ {there : Context}, there.Extends c' →
      (∀ e, call.task = .element e → ¬ there.Registered e.key ∧ c'.Registered e.key) →
        call.generates key + there.holds key ≤ c'.holds key := by
    intro there hextends hnew
    have hholds := hextends.holds_le key
    rw [generates]
    split
    · rename_i e htask
      obtain ⟨hbefore, hafter⟩ := hnew e htask
      split
      · rename_i hkey
        subst hkey
        rw [Context.holds, Context.holds, Bool.eq_false_iff.2 hbefore,
          show Dict.contains c'.lookup e.key = true from hafter]
        exact le_rfl
      · omega
    · omega
  rcases call with ⟨fuel, at', node | r | e, c⟩
  · obtain ⟨there, hthreads, hcloses⟩ := h.threads
    have hsum := hrest (hcloses.grows hplain).toExtends nofun
    exact ⟨c, there, hthreads, by dsimp only; omega⟩
  · obtain ⟨there, hthreads, hcloses⟩ := h.threads
    have hsum := hrest (hcloses.grows hplain).toExtends nofun
    exact ⟨c, there, hthreads, by dsimp only; omega⟩
  · obtain ⟨e', id, hrun⟩ := Call.ends_element.1 h
    have hafter : c'.Registered e.key := by
      have hregisters := generate_registers env fuel at' e c
      rw [hrun] at hregisters
      obtain ⟨hkey, hget⟩ := hregisters id rfl
      exact Option.isSome_iff_exists.2 ⟨id, hkey ▸ hget⟩
    by_cases he : e.isInstance
    · obtain ⟨fuel, -, rfl, -, -⟩ := generateElement_ok_instance he hrun
      obtain ⟨there, hthreads, hcloses, hbefore⟩ := instance_registers he hrun
      have hsum := hrest (hcloses.grows hplain).toExtends fun x hx => by
        cases hx
        exact ⟨hbefore, hafter⟩
      have hmade : Call.made env ⟨fuel + 2, at', .element e, c⟩ = instanceCalls env fuel at' e c :=
        if_pos he
      exact ⟨c, there, hmade ▸ hthreads, by dsimp only; omega⟩
    · have htag : e.isInstance = false := by simpa using he
      obtain ⟨fuel, rfl⟩ := generateElement_ok hrun
      obtain ⟨there, hthreads, hextends, hbefore⟩ := tag_registers htag hrun
      have hsum := hrest hextends fun x hx => by
        cases hx
        exact ⟨hbefore, hafter⟩
      exact ⟨c, there, (Call.made_tag htag) ▸ hthreads, by dsimp only; omega⟩

/-- **A key is that of one element at most** that is generated. It was not registered before then, and
is registered from then on. -/
theorem Call.Ends.generates_le (hplain : env.Plain) (h : call.Ends env c') (key : String) :
    ((call.finished env).map (Call.generates key)).sum + call.context.holds key ≤ c'.holds key :=
  h.sum_le (Context.Extends.holds_le key) fun hends => hends.generated_le hplain key

/-- The wrapper of an instance is generated. -/
theorem Call.wrapped_le (env : Environment) (key : String) (call : Call) :
    (call.wrapped env).count key ≤ ((call.made env).map (Call.generates key)).sum := by
  rcases hentered : call.entered? env with _ | entry
  · rw [wrapped, hentered]
    exact Nat.zero_le _
  rcases call with ⟨_ | _ | fuel, at', node | r | e, c⟩ <;> try cases hentered
  have he : e.isInstance := by
    by_contra he
    cases hentered.symm.trans (if_neg he)
  have hentry : enter? env fuel at' e c = some entry := (if_pos he).symm.trans hentered
  have hmade : _ ∈ Call.made env ⟨fuel + 2, at', .element e, c⟩ := mem_made.2 (.wrapper he hentry)
  rw [wrapped, hentered]
  refine le_trans ?_ (List.le_sum_of_mem (List.mem_map_of_mem hmade))
  change List.count key [entry.key] ≤ if entry.key = key then 1 else 0
  rw [List.count_singleton]
  simp

/-- One wrapper at most has a key. -/
theorem Call.Ends.wraps_le (hplain : env.Plain) (h : call.Ends env c') (key : String) :
    ((call.finished env).map fun inner => (inner.wrapped env).count key).sum ≤ 1 := by
  have hwrapped : ((call.finished env).map fun inner => (inner.wrapped env).count key).sum
      ≤ ((call.finished env).map fun inner => ((inner.made env).map (Call.generates key)).sum).sum :=
    List.sum_le_sum fun inner _ => inner.wrapped_le env key
  have hmade := sum_made env (Call.generates key) call
  have hgenerates := h.generates_le hplain key
  have hone : c'.holds key ≤ 1 := Bool.toNat_le _
  omega

end Generated

/-! ## Trees -/

section Trees

variable (env : Environment)

/-- The elements in the trees of a run: those that are styled, and the one that is left. -/
def Call.trees (call : Call) : List Element :=
  (call.finished env).flatMap (·.styledTree env) ++ call.trace env

/-- A run has a key from sources of one kind only: wrappers alone have it, or no wrapper does. In
either case no reference shows an element that has it. -/
structure Call.Apart (key : String) (call : Call) : Prop where
  shown : ∀ inner ∈ call.finished env, ∀ x ∈ inner.shown env, x.key ≠ key
  wrapped : (∀ inner ∈ call.finished env, key ∉ inner.wrapped env) ∨
    (∀ x ∈ call.task.elements, x.key ≠ key) ∧
      ∀ inner ∈ call.finished env, ∀ x ∈ inner.copied env, x.key ≠ key

variable {env} {key : String} {c c' : Context} {call : Call}

theorem keyCount_eq_zero {es : List Element} : keyCount key es = 0 ↔ ∀ x ∈ es, x.key ≠ key := by
  rw [keyCount, List.count_eq_zero, List.mem_map]
  constructor
  · intro h x hx hkey
    exact h ⟨x, hx, hkey⟩
  · rintro h ⟨x, hx, hkey⟩
    exact h x hx hkey

theorem keyCount_trees (key : String) (call : Call) : keyCount key (call.trees env)
    = keyCount key (call.trace env)
      + ((call.finished env).map fun inner => keyCount key (inner.styledTree env)).sum := by
  rw [Call.trees, keyCount_append, Nat.add_comm]
  refine congrArg (keyCount key (call.trace env) + ·) ?_
  induction call.finished env with
  | nil => rfl
  | cons inner rest ih => rw [List.flatMap_cons, keyCount_append, ih, List.map_cons, List.sum_cons]

/-- What references show does not count if they show nothing of the key. -/
theorem Call.sum_brings (hshown : ∀ inner ∈ call.finished env, ∀ x ∈ inner.shown env, x.key ≠ key) :
    ((call.finished env).map (Call.brings env key)).sum
      = ((call.finished env).map fun inner => keyCount key (inner.copied env)).sum
        + ((call.finished env).map fun inner => (inner.wrapped env).count key).sum := by
  rw [← List.sum_map_add]
  refine congrArg List.sum (List.map_congr_left fun inner hinner => ?_)
  rw [brings, keyCount_eq_zero.2 (hshown inner hinner), Nat.zero_add]

/-- **An element in the trees of a run** is the only one of its key there, if the key comes from
sources of one kind and what the run is given has it once at most, and only if it is used. -/
theorem Call.Ends.count_trees_le (hplain : env.Plain) (hexternals : TidyExternals env.externals)
    (hcall : call.Ordered) (h : call.Ends env c')
    (hown : keyCount key call.task.elements ≤ call.context.use key) (hapart : call.Apart env key) :
    keyCount key (call.trees env) ≤ 1 := by
  have hconserves := h.conserves hplain hexternals hcall key
  rw [Call.sum_brings hapart.shown] at hconserves
  rw [keyCount_trees]
  rcases hapart.wrapped with hwrapped | ⟨hgiven, hcopied⟩
  · have hnone : ((call.finished env).map fun inner => (inner.wrapped env).count key).sum = 0 :=
      List.sum_eq_zero_iff.2 fun n hn => by
        obtain ⟨inner, hinner, rfl⟩ := List.mem_map.1 hn
        exact List.count_eq_zero_of_not_mem (hwrapped inner hinner)
    have hcopies := h.copies_le hplain key
    have hone : c'.use key ≤ 1 := Bool.toNat_le _
    omega
  · have hnone : ((call.finished env).map fun inner => keyCount key (inner.copied env)).sum = 0 :=
      List.sum_eq_zero_iff.2 fun n hn => by
        obtain ⟨inner, hinner, rfl⟩ := List.mem_map.1 hn
        exact keyCount_eq_zero.2 (hcopied inner hinner)
    have hwraps := h.wraps_le hplain key
    have hgiven := keyCount_eq_zero.2 hgiven
    omega

/-! ## Colons -/

/-- A key of a wrapper has no colon. -/
theorem WrapperKey.colon_notMem {name : String} (h : WrapperKey name key) : ':' ∉ key.toList := by
  rcases h with rfl | ⟨seed, rfl⟩
  · exact colon_notMem_dashCase _
  · rw [String.toList_append, String.toList_append, List.mem_append, List.mem_append]
    rintro ((hbase | hdash) | hsuffix)
    · exact colon_notMem_dashCase _ hbase
    · exact absurd hdash (by decide)
    · exact colon_notMem_suffix _ hsuffix

theorem Call.colon_notMem_copied {x : Element} (hx : x ∈ call.copied env) : ':' ∉ x.key.toList := by
  obtain ⟨external, -, hx⟩ := List.mem_flatMap.1 hx
  obtain ⟨e, -, -, hclaimable⟩ :=
    exists_of_forall₂_right (call.context.copy_tree external).1 hx
  exact hclaimable.colon_notMem

theorem Call.colon_notMem_wrapped (h : key ∈ call.wrapped env) : ':' ∉ key.toList := by
  obtain ⟨entry, hentry, rfl⟩ := List.mem_map.1 h
  rw [Option.mem_toList] at hentry
  rcases call with ⟨_ | _ | fuel, at', node | r | e, c⟩ <;> try cases hentry
  have he : e.isInstance := by
    by_contra he
    cases hentry.symm.trans (if_neg he)
  obtain ⟨-, -, -, -, -, hwrapper, -⟩ := enter?_eq_some ((if_pos he).symm.trans hentry)
  exact (wrapperKey?_some hwrapper).2.colon_notMem

/-- **No key in the trees of a run has a colon**, if those that it is given have none and references
show nothing of the key. -/
theorem Call.Ends.colon_notMem (hplain : env.Plain) (hexternals : TidyExternals env.externals)
    (hcall : call.Ordered) (h : call.Ends env c')
    (hown : ∀ x ∈ call.task.elements, ':' ∉ x.key.toList) {x : Element} (hx : x ∈ call.trees env)
    (hshown : ∀ inner ∈ call.finished env, ∀ y ∈ inner.shown env, y.key ≠ x.key) :
    ':' ∉ x.key.toList := by
  intro hcolon
  have hgiven : keyCount x.key call.task.elements = 0 :=
    keyCount_eq_zero.2 fun y hy hkey => hown y hy (hkey ▸ hcolon)
  have hcopied : ((call.finished env).map fun inner => keyCount x.key (inner.copied env)).sum = 0 :=
    List.sum_eq_zero_iff.2 fun n hn => by
      obtain ⟨inner, -, rfl⟩ := List.mem_map.1 hn
      exact keyCount_eq_zero.2 fun y hy hkey => Call.colon_notMem_copied hy (hkey ▸ hcolon)
  have hwrapped : ((call.finished env).map fun inner => (inner.wrapped env).count x.key).sum = 0 :=
    List.sum_eq_zero_iff.2 fun n hn => by
      obtain ⟨inner, -, rfl⟩ := List.mem_map.1 hn
      exact List.count_eq_zero_of_not_mem fun hmem => Call.colon_notMem_wrapped hmem hcolon
  have hconserves := h.conserves hplain hexternals hcall x.key
  rw [Call.sum_brings hshown, ← keyCount_trees] at hconserves
  have hnone : keyCount x.key (call.trees env) = 0 := by omega
  exact keyCount_eq_zero.1 hnone x hx rfl

end Trees

end PageCompiler
