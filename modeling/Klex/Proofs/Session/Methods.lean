import Klex.Proofs.Evaluator.Parts
import Klex.Proofs.Grammar.Completeness
import Klex.Proofs.Host.Naming
import Klex.Proofs.Scope.Assignment
import Klex.Proofs.Tree.Clarity
import Klex.Session

/-!
# How scripts name the methods of a host

* **`parse_word`** — a word is read as a name, keywords too, unless it begins like a literal.
* **`not_opensLiteral_of_parse`** — no name in a program begins like a literal.
* **`Exec.Fills`** — a computation that does nothing to the scopes but bind a row of names in the
  outermost one.
* **`Session.start_heap`** — **a new session has two scopes, and the outer one is filled with the builtins,
  the exposed methods and what else the host installs**, in this order.
* **`Session.methods_named`** — **an exposed method goes by a word without underscores, and a script can
  name it by that word unless it begins like a literal.**
-/

namespace Klex

open Grammar

/-! ### Words in programs -/

/-- **A word is read as a name.**  Keywords are names as well where nothing follows them. -/
theorem parse_word {room : Nat} (hroom : 33 ≤ room) {text : String} (h : Token.Word text)
    (hfree : ¬ Token.OpensLiteral text) :
    Program.parse room text = .ok ⟨some 0, [.expr (.name 0 text)]⟩ := by
  obtain ⟨color, htokens⟩ := tokenize_word h hfree
  by_cases hkeyword : text ∈ keywords
  · -- the statement that the keyword begins is given up at the end of the text
    have hall : ∀ word ∈ keywords,
        unlimited Rule.tight (significant [⟨.identifier, word, 0, .text word, color, true, fun _ => rfl⟩])
          = .ok ⟨some 0, [.expr (.name 0 word)]⟩ := by
      simp only [keywords, List.forall_mem_cons]
      exact ⟨rfl, rfl, rfl, rfl, fun _ hword => absurd hword List.not_mem_nil⟩
    exact parse_of_unlimited htokens (hall text hkeyword) (ampleFor_single rfl hroom)
  · let t : Token := ⟨.identifier, text, 0, .text text, color, true, fun _ => rfl⟩
    have hname : (Expr.name t.pos t.name).Yields [t] := .name (Token.isName rfl)
    exact parse_single hroom htokens rfl (fun _ => rfl) hname (by simpa [Expr.isClear] using hkeyword)

/-- **No name in a program begins like a literal.** -/
theorem not_opensLiteral_of_parse {room : Nat} {source : String} {p : Program}
    (h : Program.parse room source = .ok p) {pos : Nat} {id : String}
    (hname : Expr.name pos id ∈ p.nodes) : ¬ Token.OpensLiteral id := by
  obtain ⟨tokens, htokens, hparse⟩ := Program.parse_ok h
  have hyields : p.Yields (significant tokens) := unlimited_yields (unlimited_of_ofTokensWithin hparse)
  obtain ⟨us, hus, hyields'⟩ := hyields.nodes _ hname
  cases hyields' with
  | @name t _ hid =>
    have ht : t ∈ tokens := (List.mem_filter.1 (hus.subset List.mem_cons_self)).1
    have hspelled : t.text = id :=
      ((tokenize_sound htokens ht).spelled (by rw [hid.1]; rfl)).trans hid.name_eq
    exact hspelled ▸ not_opensLiteral_of_identifier htokens ht hid.1

/-! ### Filling the outermost scope -/

/-- The computation ends and binds the names, in this order, in the outermost scope.  It leaves the scopes
alone otherwise. -/
def Exec.Fills {α : Type} (x : Exec α) (names : List String) : Prop :=
  ∀ m : Machine, ∃ a m' pairs, x.run m = .ok a m' ∧
    m'.heap = m.heap.defineAll rootScope pairs ∧ pairs.map Prod.fst = names

namespace Exec.Fills

variable {α β : Type} {x : Exec α} {f : α → Exec β} {names more : List String}

theorem pure (a : α) : Fills (Pure.pure a) [] := fun m => ⟨a, m, [], rfl, rfl, rfl⟩

theorem bind (hx : Fills x names) (hf : ∀ a, Fills (f a) more) : Fills (x >>= f) (names ++ more) := by
  intro m
  obtain ⟨a, m₁, pairs, hrun, hheap, hnames⟩ := hx m
  obtain ⟨b, m₂, pairs', hrun', hheap', hnames'⟩ := hf a m₁
  refine ⟨b, m₂, pairs ++ pairs', ?_, ?_, by rw [List.map_append, hnames, hnames']⟩
  · rw [EStateM.run_bind, hrun]
    exact hrun'
  · rw [hheap', hheap, Heap.defineAll, Heap.defineAll, Heap.defineAll, List.foldl_append]

/-- What binds nothing may come first. -/
theorem after (hx : Fills x []) (hf : ∀ a, Fills (f a) names) : Fills (x >>= f) names := hx.bind hf

end Exec.Fills

theorem Exec.fills_freshId : Fills freshId [] := fun _ => ⟨_, _, [], rfl, rfl, rfl⟩

-- The recursion is on the description, with the items of a list as the inner one.
mutual

theorem Given.fills_realize : (g : Given) → Exec.Fills g.realize []
  | .null | .bool _ | .int _ | .float _ | .text _ | .absent => by
    rw [Given.realize]
    exact .pure _
  | .function _ | .native _ _ _ => by
    rw [Given.realize]
    exact Exec.fills_freshId.after fun _ => .pure _
  | .list items => by
    rw [Given.realize]
    exact (Given.fills_realizeAll items).after fun _ => Exec.fills_freshId.after fun _ => .pure _
  | .ref _ => by
    rw [Given.realize]
    exact fun _ => ⟨_, _, [], rfl, rfl, rfl⟩

theorem Given.fills_realizeAll : (gs : List Given) → Exec.Fills (Given.realizeAll gs) []
  | [] => by
    rw [Given.realizeAll]
    exact .pure _
  | g :: gs => by
    rw [Given.realizeAll]
    exact (Given.fills_realize g).after fun _ => (Given.fills_realizeAll gs).after fun _ => .pure _

end

namespace Session

theorem fills_defineAll (pairs : List (String × Value)) :
    Exec.Fills (Exec.defineAll rootScope pairs) (pairs.map Prod.fst) :=
  fun _ => ⟨(), _, pairs, rfl, rfl, rfl⟩

theorem fills_installNative (key name : String) (discards : Bool) (code : Native) (bound : List Value) :
    Exec.Fills (installNative key name discards code bound) [key] :=
  Exec.fills_freshId.after fun _ => fills_defineAll _

theorem fills_installBuiltins (natives : List (String × Native)) :
    Exec.Fills (installBuiltins natives) (natives.map Prod.fst) := by
  induction natives with
  | nil => exact .pure ()
  | cons p natives ih => exact (fills_installNative p.1 p.1 true p.2 []).bind fun _ => ih

/-- Whether scripts get to see a method. -/
def isOffered (method : Method) : Bool := method.exposed && method.code.isSome

theorem fills_installMethod (method : Method) :
    Exec.Fills (installMethod method)
      (if isOffered method then [Host.camelCase method.name] else []) := by
  rw [installMethod]
  split
  · next code hexposed hcode =>
    have hoffered : isOffered method = true := by rw [isOffered, hexposed, hcode]; rfl
    rw [if_pos hoffered]
    exact method.value.fills_realize.after fun _ => fills_installNative _ _ _ _ _
  · next hnone =>
    have hoffered : ¬ isOffered method = true := by
      intro hoffered
      obtain ⟨hexposed, hsome⟩ := Bool.and_eq_true_iff.1 hoffered
      obtain ⟨code, hcode⟩ := Option.isSome_iff_exists.1 hsome
      exact hnone code hexposed hcode
    rw [if_neg hoffered]
    exact .pure ()

/-- The names of the methods that scripts get to see, in the order in which they are bound. -/
def offeredNames (methods : List Method) : List String :=
  ((Text.sortOn Method.name (lastOfEach methods)).filter isOffered).map fun m => Host.camelCase m.name

theorem fills_installMethods (methods : List Method) :
    Exec.Fills (installMethods methods) (offeredNames methods) := by
  rw [installMethods, offeredNames]
  induction Text.sortOn Method.name (lastOfEach methods) with
  | nil => exact .pure ()
  | cons method methods ih =>
    have hboth := (fills_installMethod method).bind fun _ => ih
    by_cases hoffered : isOffered method = true
    · rw [if_pos hoffered] at hboth
      rw [List.filter_cons_of_pos hoffered]
      exact hboth
    · rw [if_neg hoffered] at hboth
      rw [List.filter_cons_of_neg hoffered]
      exact hboth

theorem fills_installGiven (init : List (String × Given)) :
    Exec.Fills (installGiven init) (init.map Prod.fst) := by
  induction init with
  | nil => exact .pure ()
  | cons p init ih =>
    exact p.2.fills_realize.after fun v => (fills_defineAll [(p.1, v)]).bind fun _ => ih

/-- **The scopes of a new session**: the outer one with all that is installed, in order, and the scope of
the scripts in it. -/
theorem start_heap (withBuiltins : Bool) (methods : List Method) (init : List (String × Given)) :
    ∃ pairs, pairs.map Prod.fst = (if withBuiltins then builtins.map Prod.fst else []) ++
        (offeredNames methods ++ init.map Prod.fst) ∧
      (start withBuiltins methods init).heap
        = (((Heap.empty.alloc none false).2.defineAll rootScope pairs).alloc (some rootScope) false).2 := by
  have hgiven : Exec.Fills (do installMethods methods; installGiven init)
      (offeredNames methods ++ init.map Prod.fst) :=
    (fills_installMethods methods).bind fun _ => fills_installGiven init
  have hall : Exec.Fills
      (do
        if withBuiltins then installBuiltins builtins
        installMethods methods
        installGiven init)
      ((if withBuiltins then builtins.map Prod.fst else []) ++
        (offeredNames methods ++ init.map Prod.fst)) := by
    cases withBuiltins with
    | false => exact hgiven
    | true => exact (fills_installBuiltins builtins).bind fun _ => hgiven
  let rooted : Machine := { Machine.empty with heap := (Heap.empty.alloc none false).2 }
  have hroot : (Exec.alloc none false).run .empty = .ok rootScope rooted := rfl
  obtain ⟨_, m', pairs, hrun, hheap, hnames⟩ := hall rooted
  have hprepare : (prepare withBuiltins methods init).run .empty
      = .ok () { m' with heap := (m'.heap.alloc (some rootScope) false).2 } := by
    have hsplit : prepare withBuiltins methods init = (do
        let root ← Exec.alloc none false
        (do
          if withBuiltins then installBuiltins builtins
          installMethods methods
          installGiven init)
        let _ ← Exec.alloc (some root) false) := by
      cases withBuiltins <;> simp [prepare, bind_assoc]
    rw [hsplit]
    exact (Exec.run_bind_ok hroot).trans ((Exec.run_bind_ok hrun).trans rfl)
  refine ⟨pairs, hnames, ?_⟩
  rw [start, hprepare, ← hheap]

end Session

/-! ### What a script finds installed -/

namespace Heap

variable {h : Heap} {s : ScopeId} {name : String}

theorem size_defineAll (pairs : List (String × Value)) : (h.defineAll s pairs).size = h.size := by
  induction pairs generalizing h with
  | nil => rfl
  | cons p pairs ih => exact ih.trans (size_define h s p.1 p.2)

theorem binds_define (hs : s < h.size) (key : String) (v : Value) :
    (h.define s key v).binds name s = true ↔ h.binds name s = true ∨ name = key := by
  have hone := OneEntry.define hs key v
  by_cases hname : name = key
  · subst hname
    simp [hone.binds_self]
  · rw [hone.binds_of_ne fun hboth => hname hboth.2]
    simp [hname]

theorem binds_defineAll (hs : s < h.size) (pairs : List (String × Value)) :
    (h.defineAll s pairs).binds name s = true ↔ h.binds name s = true ∨ name ∈ pairs.map Prod.fst := by
  induction pairs generalizing h with
  | nil => simp [defineAll]
  | cons p pairs ih =>
    have hrest := ih (h := h.define s p.1 p.2) (by rwa [size_define])
    rw [List.map_cons, List.mem_cons, ← or_assoc, ← binds_define hs p.1 p.2]
    exact hrest

end Heap

namespace Session

/-- **In a new session a script sees what was installed**: the builtins, the exposed methods under their names
for scripts, and what else the host gave. -/
theorem start_lookup? (withBuiltins : Bool) (methods : List Method) (init : List (String × Given))
    (name : String) :
    ((start withBuiltins methods init).heap.lookup? globalScope name).isSome = true ↔
      name ∈ (if withBuiltins then builtins.map Prod.fst else []) ++
        (offeredNames methods ++ init.map Prod.fst) := by
  obtain ⟨pairs, hnames, hheap⟩ := start_heap withBuiltins methods init
  rw [hheap, ← hnames, Heap.lookup?_isSome]
  let root := (Heap.empty.alloc none false).2
  let filled := root.defineAll rootScope pairs
  have hsize : filled.size = globalScope := Heap.size_defineAll pairs
  have hroot : rootScope < root.size := Nat.zero_lt_one
  have hparent : (filled.alloc (some rootScope) false).2.parent? globalScope = some rootScope := by
    rw [Heap.parent?_alloc, if_pos hsize.symm]
  have hchain : (filled.alloc (some rootScope) false).2.chain globalScope = [globalScope, rootScope] := by
    show Heap.chainUpTo _ 2 globalScope = _
    rw [Heap.chainUpTo, hparent]
    show globalScope :: Heap.chainUpTo _ 1 rootScope = _
    rw [Heap.chainUpTo]
    split <;> rfl
  have hempty : (filled.alloc (some rootScope) false).2.binds name globalScope = false := by
    rw [Heap.binds, Heap.bindings_alloc, Heap.bindings_of_le (Nat.le_of_eq hsize)]
    rfl
  have hbinds : (filled.alloc (some rootScope) false).2.binds name rootScope = true ↔
      name ∈ pairs.map Prod.fst := by
    rw [Heap.binds, Heap.bindings_alloc]
    exact (Heap.binds_defineAll hroot pairs).trans (or_iff_right Bool.false_ne_true)
  show ((filled.alloc (some rootScope) false).2.owner? globalScope name).isSome = true ↔ _
  rw [Heap.owner?, hchain, List.find?_isSome, ← hbinds]
  simp [hempty]

theorem mem_offeredNames {methods : List Method} {method : Method} (h : method ∈ lastOfEach methods)
    (hoffered : isOffered method = true) : Host.camelCase method.name ∈ offeredNames methods := by
  refine List.mem_map_of_mem (List.mem_filter.2 ⟨?_, hoffered⟩)
  exact (Text.sortOn_perm _).mem_iff.2 h

/-- **How scripts name a method.**  The name under which an exposed method is bound has no underscore, is its
own name for scripts, and is seen by the scripts of a new session.  It is one identifier, and a program on its
own that is that name, unless it begins like a literal: then no identifier of any text is that name, and no
program has it. -/
theorem methods_named {name : String} (h : Host.MethodName name) :
    '_' ∉ (Host.camelCase name).toList ∧
      Host.camelCase (Host.camelCase name) = Host.camelCase name ∧
      (∀ withBuiltins methods init, ∀ method ∈ lastOfEach methods, isOffered method = true →
        method.name = name →
          ((start withBuiltins methods init).heap.lookup? globalScope (Host.camelCase name)).isSome = true) ∧
      (¬ Token.OpensLiteral (Host.camelCase name) →
        (∃ color, tokenize .strict (Host.camelCase name)
          = .ok [⟨.identifier, Host.camelCase name, 0, .text (Host.camelCase name), color, true,
              fun _ => rfl⟩]) ∧
        ∀ room, 33 ≤ room → Program.parse room (Host.camelCase name)
          = .ok ⟨some 0, [.expr (.name 0 (Host.camelCase name))]⟩) ∧
      (Token.OpensLiteral (Host.camelCase name) →
        (∀ mode source tokens, tokenize mode source = .ok tokens →
          ∀ t ∈ tokens, t.kind = .identifier → t.text ≠ Host.camelCase name) ∧
        ∀ room source p, Program.parse room source = .ok p →
          ∀ pos, Expr.name pos (Host.camelCase name) ∉ p.nodes) := by
  refine ⟨Host.no_underscore h.word, Host.camelCase_word h.word, ?_, ?_, ?_⟩
  · rintro withBuiltins methods init method hmethod hoffered rfl
    rw [start_lookup?]
    exact List.mem_append_right _ (List.mem_append_left _ (mem_offeredNames hmethod hoffered))
  · exact fun hfree => ⟨tokenize_word h.word hfree, fun _ hroom => parse_word hroom h.word hfree⟩
  · intro hopens
    refine ⟨fun mode source tokens htokens t ht hkind htext => ?_,
      fun room source p hparse pos hname => ?_⟩
    · exact not_opensLiteral_of_identifier htokens ht hkind (htext ▸ hopens)
    · exact not_opensLiteral_of_parse hparse hname hopens

/-- A method with underscores everywhere. -/
def damage : Method := ⟨"_take__damage_2_", some .constant, true, .null⟩

theorem methods_named_damage :
    Host.MethodName "_take__damage_2_" ∧ Host.camelCase "_take__damage_2_" = "takeDamage2" ∧
      ((start true [damage] []).heap.lookup? globalScope "takeDamage2").isSome = true ∧
      Program.parse callLimit "takeDamage2" = .ok ⟨some 0, [.expr (.name 0 "takeDamage2")]⟩ := by
  have hmethod : Host.MethodName "_take__damage_2_" := by decide
  have hkey : Host.camelCase "_take__damage_2_" = "takeDamage2" := by decide
  obtain ⟨-, -, hseen, hread, -⟩ := methods_named hmethod
  rw [hkey] at hseen hread
  exact ⟨hmethod, hkey, hseen true [damage] [] damage List.mem_cons_self rfl rfl,
    (hread (by decide)).2 callLimit (by decide)⟩

/-- A method whose name begins like a truth value goes by a word that falls apart. -/
theorem tokenize_trueValue :
    Host.MethodName "true_value" ∧ Host.camelCase "true_value" = "trueValue" ∧
      tokenize .strict "trueValue" = .ok
        [⟨.boolean, "true", 0, .bool true, some "#FE9900", true, Kind.unnamed rfl⟩,
          ⟨.identifier, "Value", 4, .text "Value", some "#DDD", true, fun _ => rfl⟩] ∧
      ¬ ∃ t, tokenize .strict "trueValue" = .ok [t] ∧ t.kind = .identifier ∧ t.value = .text "trueValue" := by
  have htokens : tokenize .strict "trueValue" = .ok
      [⟨.boolean, "true", 0, .bool true, some "#FE9900", true, Kind.unnamed rfl⟩,
        ⟨.identifier, "Value", 4, .text "Value", some "#DDD", true, fun _ => rfl⟩] := by rfl
  refine ⟨by decide, by decide, htokens, ?_⟩
  rintro ⟨t, ht, -, -⟩
  rw [htokens] at ht
  cases ht

end Session

end Klex
