import SqlSelect.Literal.Source
import SqlSelect.Payload.Reading
import SqlSelect.Proofs.Accumulation
import SqlSelect.Proofs.Batches
import SqlSelect.Proofs.Decoding
import SqlSelect.Proofs.Fragments
import SqlSelect.Proofs.Identifiers
import SqlSelect.Proofs.Integers
import SqlSelect.Proofs.Interleaving
import SqlSelect.Proofs.Joining
import SqlSelect.Proofs.Meaning
import SqlSelect.Proofs.Nesting
import SqlSelect.Proofs.Quoting
import SqlSelect.Proofs.Reading.Statements
import SqlSelect.Proofs.References
import SqlSelect.Proofs.Reports
import SqlSelect.Proofs.Shortening
import SqlSelect.Proofs.Spellings
import SqlSelect.Proofs.Uniqueness
import SqlSelect.Proofs.WellFormed
