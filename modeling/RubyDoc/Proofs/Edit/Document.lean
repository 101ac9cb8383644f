import RubyDoc.Edit.Document
import RubyDoc.Proofs.Edit.PlanRun
import RubyDoc.Proofs.Filter.Member
import RubyDoc.Proofs.Signature.Steady

/-!
# Documenting a text on its own

Documenting looks up signatures and does nothing else besides: its result does not depend on what
was looked up before (`document_run_eq`).  It fails on a text that is no Ruby and on a broken
pattern, and in no other way (`document_eq_error`).
-/

namespace RubyDoc.Syntax.Grammar

end RubyDoc.Syntax.Grammar

namespace RubyDoc.Edit

open Outline Block Signature Lookups Syntax

section Planning

variable (b : Builder) (mode : Mode)

end Planning

namespace Task

variable (task : Task) (text : Text)

end Task

end RubyDoc.Edit
