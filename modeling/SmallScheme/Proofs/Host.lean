import SmallScheme.Host.Sample
import SmallScheme.Proofs.Script.Construct

namespace SmallScheme

/-!
# The conduct of the hosts

The absent host only fails.  The sample host makes fresh objects, and its special forms write their
operands or hand over the last one.  So both comply with every law.
-/

open Script

variable {law : Law}

namespace Host

theorem keeps_absent
    (law : Law) :
    Host.absent.Keeps law.sound where
  resolve _ _ _ := .pure _
  invoke _ _ := .throw _
  call _ _ := .throw _
  function _ _ := .throw _

namespace Sample

private theorem keeps_texts
    (texts : List String) :
    StoreM.Keeps law.sound (Sample.texts texts) := by
  induction texts with
  | nil =>
      exact .pure _
  | cons text rest inductionHypothesis =>
      refine .bind (Store.keeps_outside (fun _ => rfl) fun _ => rfl) fun _ => ?_
      exact .bind inductionHypothesis fun _ => .pure _

private theorem keeps_list
    (items : List Value) :
    StoreM.Keeps law.sound (list items) :=
  Store.keeps_newList items

private theorem keeps_object
    (name : String)
    (content : Value) :
    StoreM.Keeps law.sound (object name content) :=
  .bind (Store.keeps_outside (fun _ => rfl) fun _ => rfl) fun _ => .pure _

private theorem keeps_resolve
    (name : String)
    (count : Option Nat)
    (namespaces : List String) :
    StoreM.Keeps law.sound (resolve name count namespaces) := by
  unfold resolve
  split
  · exact .pure _
  · refine .bind (keeps_texts _) fun texts => ?_
    exact .bind (keeps_list _) fun _ => .pure _
  · exact keeps_object _ _
  · exact keeps_object _ _
  · exact keeps_object _ _
  · exact keeps_object _ _
  · split
    · exact keeps_object _ _
    · exact .pure _
  · exact .pure _

private theorem keeps_invoke
    (member : String)
    (operands : List Value) :
    StoreM.Keeps law.sound (invoke member operands) := by
  unfold invoke
  split
  · exact .throw _
  · exact .bind (Store.keeps_outside (fun _ => rfl) fun _ => rfl) fun _ => keeps_list _

private theorem keeps_call
    (object : ForeignObject)
    (operands : List Value) :
    StoreM.Keeps law.sound (call object operands) := by
  unfold call
  split
  · exact keeps_list _
  · exact .throw _
  · exact .bind (keeps_list _) fun _ => .throw _
  · exact .pure _
  · exact keeps_list _

private theorem keeps_sum
    (first second : Int64) :
    StoreM.Keeps law.sound (sum first second) := by
  unfold sum
  split
  · exact .pure _
  · exact .throw _

private theorem keeps_function
    (name : String)
    (operands : List Value) :
    StoreM.Keeps law.sound (function name operands) := by
  unfold function
  split
  · exact Signature.keeps_adapt (StoreM.Keeps.pure _) _
  · exact Signature.keeps_adapt keeps_sum _
  · exact Signature.keeps_adapt (fun _ => .pure _) _
  · exact Signature.keeps_adapt (fun _ _ _ => keeps_list _) _
  · exact Signature.keeps_adapt (fun _ _ => keeps_list _) _
  · refine Signature.keeps_adapt (fun _ _ _ => ?_) _
    exact Store.keeps_outside (fun _ => rfl) fun _ => rfl
  · exact Signature.keeps_adapt (fun _ => .pure _) _
  · exact Signature.keeps_adapt (fun _ => keeps_list _) _
  · exact .throw _

private theorem plain_writings
    (operands : List Value) :
    Plain law (writings operands) := by
  induction operands with
  | nil =>
      exact .done trivial
  | cons operand rest inductionHypothesis =>
      exact .bind plain_writing fun _ => .bind inductionHypothesis fun _ => .done trivial

/-- The special forms write their operands or hand over the last one. -/
theorem lawful_form
    (name : String)
    {scope : Scope}
    (admits : law.admits scope)
    (operands : List Value) :
    Lawful law (form name scope operands) := by
  unfold form
  split
  · refine .bind (plain_writings operands) fun shown => ?_
    exact .bind (plain_perform (.bind (keeps_texts _) keeps_list)) fun _ => complies_answer
  · split
    · exact lawful_defer admits
    · exact complies_refuseCount
  · exact complies_fail

end Sample

theorem keeps_sample
    (law : Law) :
    Host.sample.Keeps law.sound where
  resolve := Sample.keeps_resolve
  invoke := Sample.keeps_invoke
  call := Sample.keeps_call
  function := Sample.keeps_function

end Host

end SmallScheme
