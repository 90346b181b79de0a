import CommandGrammar.Completion
import CommandGrammar.Proofs.Command.Crossing
import CommandGrammar.Proofs.Command.Greedy
import CommandGrammar.Proofs.Command.Relations
import CommandGrammar.Proofs.Command.Resolving
import CommandGrammar.Proofs.Completion.Roles
import CommandGrammar.Proofs.Completion.Union
import CommandGrammar.Proofs.Cursor.Operations
import CommandGrammar.Proofs.Reading.Entries
import CommandGrammar.Proofs.Reading.Lists
import CommandGrammar.Proofs.Reading.Variants
import CommandGrammar.Proofs.Session.Arguments
import CommandGrammar.Proofs.Session.Binding
import CommandGrammar.Proofs.Session.Bounds
import CommandGrammar.Proofs.Session.Permission
import CommandGrammar.Proofs.Session.Record
import CommandGrammar.Proofs.Session.Underway
import CommandGrammar.Proofs.Session.Unrelated
import CommandGrammar.Proofs.Session.Winner
import CommandGrammar.Proofs.Trial.Defaults
import CommandGrammar.Proofs.Trial.Furthest
import CommandGrammar.Proofs.Trial.Interleaving
import CommandGrammar.Proofs.Trial.Residue
import CommandGrammar.Proofs.Trial.Sites
import CommandGrammar.Proofs.Trial.Turns
import CommandGrammar.Proofs.Trial.Unused
import CommandGrammar.Session.Dispatch
import CommandGrammar.ValueType.Ready
import CommandGrammar.Proofs.Text.Coverage
import CommandGrammar.Proofs.Text.SeamBlanks
