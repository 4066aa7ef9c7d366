import DocumentStore.Event
import DocumentStore.Gateway.Database
import DocumentStore.Proofs.Access.Condition.Recognition
import DocumentStore.Proofs.Access.Loading
import DocumentStore.Proofs.Access.Selection
import DocumentStore.Proofs.Gateway.Mediation
import DocumentStore.Proofs.Gateway.Noninterference
import DocumentStore.Proofs.Gateway.Parts
import DocumentStore.Proofs.Gateway.Refusals
import DocumentStore.Proofs.Gateway.Retries
import DocumentStore.Proofs.Query.Rearranged
import DocumentStore.Proofs.Query.Suggestion
import DocumentStore.Proofs.Store.Commit
import DocumentStore.Proofs.Store.ExactlyOnce
import DocumentStore.Proofs.Store.Guards
import DocumentStore.Proofs.Store.Replay
import DocumentStore.Proofs.Store.WholeReplays
import DocumentStore.Proofs.Store.Tailing
import DocumentStore.Proofs.Gateway.DeclaredReads
import DocumentStore.Proofs.Query.HeldPlans
import DocumentStore.Proofs.Query.SuggestedNames
import DocumentStore.Proofs.Access.Condition.Comparison
import DocumentStore.Proofs.Cache.Accounts
import DocumentStore.Proofs.Gateway.Paths
import DocumentStore.Proofs.Access.Condition.Offsets
import DocumentStore.Proofs.Access.Identity
import DocumentStore.Proofs.Gateway.WrittenForms
import DocumentStore.Proofs.Index.NumberKeys
