import Wae.Threadpool.Limits

/-! The attributes `main` and `test`: the function they make of an async one. -/
namespace Wae.Macros
open Threadpool

/-- The arguments of the attribute. -/
structure EntryArgs where
  maxThreads : Option UInt32
  minThreads : Option UInt32
  path : Option String
  deriving DecidableEq, Repr

structure Signature where
  asyncness : Bool
  /-- What there is besides. -/
  rest : String
  deriving DecidableEq, Repr

structure ItemFn where
  attrs : List String
  vis : String
  sig : Signature
  block : String
  deriving DecidableEq, Repr

/-- The function that is written: its body is `Threadpool::builder` under the path, with
these methods called on it, `build`, `unwrap` and `block_on` of the async block. -/
structure Entry where
  header : Option String
  attrs : List String
  vis : String
  sig : Signature
  path : String
  methods : List Builder.Method
  block : String
  deriving DecidableEq, Repr

def entry (args : EntryArgs) (input : ItemFn) (test : Bool) : Except String Entry :=
  if input.sig.asyncness then
    let header := if test then some "#[::core::prelude::v1::test]" else none
    let path := args.path.getD "::wae"
    let maxThreads :=
      match args.maxThreads with
      | some maximum => [.maxThreads maximum]
      | none => []
    let minThreads :=
      match args.minThreads with
      | some minimum => [.minThreads minimum]
      | none => []
    .ok
      { header
        attrs := input.attrs
        vis := input.vis
        sig := {input.sig with asyncness := false}
        path
        methods := maxThreads ++ minThreads
        block := input.block }
  else .error "the async keyword is missing from the function declaration"

/-- **The pool of an entry function** is built with the maximum asked for as its minimum, and
with the minimum asked for as its maximum. -/
theorem entry_configures {args : EntryArgs} {input : ItemFn} {test : Bool} {f : Entry}
    (h : entry args input test = .ok f) (numberOfProcessors : UInt32) :
    (Limits.machine numberOfProcessors).run (Limits.machine numberOfProcessors).init
        (f.methods.map .builder) =
      some (.configures
        ⟨args.minThreads.getD 512, args.maxThreads.getD numberOfProcessors, true⟩) := by
  obtain ⟨maxThreads, minThreads, path⟩ := args
  unfold entry at h
  split at h
  · cases h
    cases maxThreads <;> cases minThreads <;> rfl
  · cases h

end Wae.Macros
