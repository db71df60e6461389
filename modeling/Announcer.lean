import Announcer.Main
import Announcer.Grammar.Edit
import Announcer.Message.Draft
import Announcer.Proofs.Message.Delivery
import Announcer.Proofs.Modifier.Marks
import Announcer.Proofs.Template.Balance
import Announcer.Proofs.Template.NormalForm
import Announcer.Proofs.Template.RoundTrip
import Announcer.Proofs.Expansion.Contract
import Announcer.Proofs.Expansion.Language
import Announcer.Proofs.Expansion.Record
import Announcer.Proofs.Expansion.Steps
import Announcer.Proofs.Expansion.ScopedPushes
import Announcer.Proofs.Expansion.StackDiscipline
import Announcer.Proofs.Expansion.Restoration
import Announcer.Proofs.Expansion.DepthLimit
import Announcer.Proofs.Expansion.Locality
import Announcer.Proofs.Expansion.Placeholders
import Announcer.Proofs.Expansion.Mirror
import Announcer.Proofs.Grammar.Reached
import Announcer.Proofs.Grammar.Edits
import Announcer.Proofs.Grammar.History
import Announcer.Proofs.Grammar.LintSoundness
import Announcer.Proofs.Grammar.LintReports
import Announcer.Proofs.Grammar.Merge
import Announcer.Proofs.Loading.Spelling
import Announcer.Proofs.Loading.Json
import Announcer.Proofs.Loading.Ron
import Announcer.Proofs.Loading.Agreement
import Announcer.Proofs.Command.Gathering
import Announcer.Proofs.Template.Splitting
import Announcer.Proofs.Expansion.Names
import Announcer.Proofs.Template.Concatenation
import Announcer.Proofs.Template.Parameters
import Announcer.Proofs.Expansion.PlainText
import Announcer.Proofs.Expansion.ModifierChain
import Announcer.Proofs.Expansion.Traversal
import Announcer.Proofs.Message.Sending
import Announcer.Proofs.Expansion.PushedTexts
import Announcer.Proofs.Message.Drafting
import Announcer.Proofs.Chance.Uniform
import Announcer.Proofs.Json.Writing
import Announcer.Proofs.Json.Reading
import Announcer.Proofs.Webhook.Directories
import Announcer.Proofs.Webhook.Payloads
import Announcer.Proofs.Template.Positions
import Announcer.Proofs.Modifier.Words
import Announcer.Proofs.Modifier.CapitalizedTwice
import Announcer.Proofs.Command.Sampling
